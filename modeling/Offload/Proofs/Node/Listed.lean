import Mathlib.Data.List.Forall2
import Offload.Proofs.Json.Shape
import Offload.Proofs.Node.Heard

namespace Offload

theorem mapM_eq_ok_iff {α β : Type} {read : α → Except Failure β} {elements : List α} {values : List β} :
    elements.mapM read = .ok values ↔
      List.Forall₂ (fun element value => read element = .ok value) elements values := by
  induction elements generalizing values with
  | nil =>
    rw [List.mapM_nil, List.forall₂_nil_left_iff]
    exact ⟨fun hvalues => (Except.ok.inj hvalues).symm, fun hvalues => hvalues ▸ rfl⟩
  | cons element elements ih =>
    rw [List.mapM_cons, List.forall₂_cons_left_iff]
    simp only [Failure.bind_eq_ok_iff, ih]
    constructor
    · rintro ⟨value, hvalue, rest, hrest, hvalues⟩
      exact ⟨value, rest, hvalue, hrest, (Except.ok.inj hvalues).symm⟩
    · rintro ⟨value, rest, hvalue, hrest, rfl⟩
      exact ⟨value, hvalue, rest, hrest, rfl⟩

theorem exists_forall₂_iff {α β : Type} {holds : α → β → Prop} {items : List α} :
    (∃ values, List.Forall₂ holds items values) ↔ ∀ item ∈ items, ∃ value, holds item value := by
  induction items with
  | nil => exact ⟨nofun, fun _ => ⟨[], .nil⟩⟩
  | cons item items ih =>
    rw [List.forall_mem_cons, ← ih]
    constructor
    · rintro ⟨_, _ | ⟨hvalue, hvalues⟩⟩
      exact ⟨⟨_, hvalue⟩, _, hvalues⟩
    · rintro ⟨⟨value, hvalue⟩, values, hvalues⟩
      exact ⟨value :: values, .cons hvalue hvalues⟩

namespace Json

variable {α : Type} [Wire α] {reply : Json} {key : String}

/-- The reply has an array under the key, and the list holds what its elements are read as, one for one
and in the same order. -/
def Lists (reply : Json) (key : String) (values : List α) : Prop :=
  ∃ elements, reply.get? (utf8 key) = some (.array elements) ∧
    List.Forall₂ (fun element value => Wire.decode element = .ok value) elements values

theorem field_list_eq_ok_iff {values : List α} : reply.field key = .ok values ↔ reply.Lists key values := by
  rw [field_eq_ok_iff]
  constructor
  · rintro ⟨member, hmember, hdecode⟩
    obtain ⟨elements, helements, hread⟩ := Failure.bind_eq_ok_iff.mp hdecode
    cases member with
    | array items =>
      obtain rfl : items = elements := Except.ok.inj helements
      exact ⟨items, hmember, mapM_eq_ok_iff.mp hread⟩
    | null | bool | int | float | string | object => cases helements
  · rintro ⟨elements, hmember, hvalues⟩
    exact ⟨.array elements, hmember, Failure.bind_eq_ok_iff.mpr ⟨elements, rfl, mapM_eq_ok_iff.mpr hvalues⟩⟩

/-- The reply has the array under the key, and each of its elements can be read. -/
structure Legible (α : Type) [Wire α] (reply : Json) (key : String) (elements : List Json) : Prop where
  array : reply.get? (utf8 key) = some (.array elements)
  read : ∀ element ∈ elements, ∃ value : α, Wire.decode element = .ok value

theorem Legible.exists_lists {elements : List Json} (hlegible : reply.Legible α key elements) :
    ∃ values : List α, reply.Lists key values ∧
      List.Forall₂ (fun element value => Wire.decode element = .ok value) elements values := by
  obtain ⟨values, hvalues⟩ := exists_forall₂_iff.mpr hlegible.read
  exact ⟨values, ⟨elements, hlegible.array, hvalues⟩, hvalues⟩

theorem Lists.legible {values : List α} (hlists : reply.Lists key values) :
    ∃ elements, reply.Legible α key elements := by
  obtain ⟨elements, harray, hvalues⟩ := hlists
  exact ⟨elements, harray, exists_forall₂_iff.mp ⟨values, hvalues⟩⟩

end Json

namespace Query

/-- The questions for a list, each with the key under which the reply has it. -/
inductive Listing : {α : Type} → [Wire α] → Query (List α) → String → Prop
  | allNodes : Listing allNodes "nodes"
  | connectedPeers : Listing connectedPeers "peers"
  | chatMessages (peer : Bytes) : Listing (chatMessages peer) "messages"

variable {α : Type} [Wire α] {query : Query (List α)} {key : String} {reply : Json}

theorem Listing.eq_list (hlisting : query.Listing key) :
    ∃ purpose method params, query = list purpose method params key := by
  cases hlisting <;> exact ⟨_, _, _, rfl⟩

theorem Listing.failed_eq (hlisting : query.Listing key) (failure : Failure) :
    query.failed failure = [] := by
  obtain ⟨_, _, _, rfl⟩ := hlisting.eq_list
  rfl

theorem Listing.answered_of_lists (hlisting : query.Listing key) {values : List α}
    (hlists : reply.Lists key values) : query.answered (.ok reply) = values := by
  obtain ⟨_, _, _, rfl⟩ := hlisting.eq_list
  have hreading : (Attempt.ofExcept (reply.field key)).run.value = .ok values :=
    Json.field_list_eq_ok_iff.mpr hlists
  simp only [answered, list, hreading]

theorem Listing.answered_of_none (hlisting : query.Listing key)
    (hnone : ∀ values : List α, ¬ reply.Lists key values) : query.answered (.ok reply) = [] := by
  obtain ⟨_, _, _, rfl⟩ := hlisting.eq_list
  cases hread : reply.field (α := List α) key with
  | ok values => exact (hnone values (Json.field_list_eq_ok_iff.mp hread)).elim
  | error failure =>
    have hreading : (Attempt.ofExcept (reply.field (α := List α) key)).run.value = .error failure := hread
    simp only [answered, list, hreading]

end Query

theorem ChatMessage.signature_of_decode {element : Json} {message : ChatMessage}
    (hdecode : Wire.decode element = .ok message) : element.HoldsBlob "signature" message.signature := by
  simp only [Wire.decode, Failure.bind_eq_ok_iff] at hdecode
  obtain ⟨_, hsender, _, _, _, _, _, _, _, _, _, _, data, hblob, hmessage⟩ := hdecode
  cases hmessage
  cases element with
  | object members => exact Json.blobD_eq_ok_iff.mp hblob
  | null | bool | int | float | string | array => cases hsender

namespace Node

variable {α : Type} [Wire α] {node : Node} {allowed : Link.Command → Prop} {query : Query (List α)}
  {key : String}

theorem Reached.ask_of_legible (hreached : node.Reached allowed) (hlisting : query.Listing key)
    {reply : Json} {elements : List Json} (hheard : node.Hears query reply)
    (hlegible : reply.Legible α key elements) :
    List.Forall₂ (fun element value => Wire.decode element = .ok value) elements
      (node.ask query).1 := by
  obtain ⟨values, hlists, hvalues⟩ := hlegible.exists_lists
  rw [hreached.ask_of_heard hheard, hlisting.answered_of_lists hlists]
  exact hvalues

theorem Reached.ask_of_illegible (hreached : node.Reached allowed) (hlisting : query.Listing key)
    (hillegible : ∀ reply elements, node.Hears query reply → ¬ reply.Legible α key elements) :
    (node.ask query).1 = [] := by
  rcases hreached.ask_cases query with ⟨reply, hheard, hanswer⟩ | ⟨_, failure, hfailed⟩
  · rw [hanswer]
    refine hlisting.answered_of_none fun values hlists => ?_
    obtain ⟨elements, hlegible⟩ := hlists.legible
    exact hillegible reply elements hheard hlegible
  · rw [hfailed, hlisting.failed_eq]

/-- The answer to a question for a list holds what the elements of the array in the reply are read as, one
for one and in the same order, if a reply is heard that has the array and each element can be read;
otherwise the list is empty. So one element suffices for that, such as a message whose signature cannot
be read. -/
theorem listed_whole (hreached : node.Reached allowed) :
    (∀ {α : Type} [Wire α] (query : Query (List α)) (key : String), query.Listing key →
      (∀ reply elements, node.Hears query reply → reply.Legible α key elements →
        List.Forall₂ (fun element value => Wire.decode element = .ok value) elements
          (node.ask query).1) ∧
      ((∀ reply elements, node.Hears query reply → ¬ reply.Legible α key elements) →
        (node.ask query).1 = [])) ∧
      ∀ peer reply elements element text, node.Hears (Query.chatMessages peer) reply →
        reply.get? (utf8 "messages") = some (.array elements) → element ∈ elements →
        element.get? (utf8 "signature") = some (.string text) → (∀ data, Base64.decode text ≠ .ok data) →
        (node.ask (Query.chatMessages peer)).1 = [] := by
  refine ⟨fun query key hlisting => ⟨fun reply elements => hreached.ask_of_legible hlisting,
    hreached.ask_of_illegible hlisting⟩, ?_⟩
  intro peer reply elements element text hheard harray hmem hsignature hmalformed
  refine hreached.ask_of_illegible (.chatMessages peer) fun other others hother hlegible => ?_
  cases hheard.unique hother
  cases harray.symm.trans hlegible.array
  obtain ⟨message, hmessage⟩ := hlegible.read element hmem
  obtain ⟨other, hother | ⟨habsent, _⟩, hdata⟩ := ChatMessage.signature_of_decode hmessage
  · cases hsignature.symm.trans hother
    exact hmalformed _ hdata
  · cases hsignature.symm.trans habsent

/-- A truth value is a number of 32 bits, but a text is none; and a signature has to be written in base64. -/
theorem listed_whole_answering :
    let ready := answering (utf8 "\x7b\"peers\":[3,true]\x7d")
    let torn := answering (utf8 "\x7b\"peers\":[3,\"4\"]\x7d")
    let forged := answering (utf8 ("\x7b\"messages\":[\x7b\"fromPeer\":\"a\",\"toPeer\":\"b\"," ++
      "\"message\":\"c\",\"signature\":\"!!!!\"\x7d]\x7d"))
    ready.Reached Link.Command.IsPlain ∧ (ready.ask Query.connectedPeers).1 = [3, 1] ∧
      torn.Reached Link.Command.IsPlain ∧ (torn.ask Query.connectedPeers).1 = [] ∧
      forged.Reached Link.Command.IsPlain ∧
      (forged.ask (Query.chatMessages (utf8 "peer"))).1 = [] := by
  intro ready torn forged
  have hready : ready.Reached Link.Command.IsPlain := answering_reached _
  have htorn : torn.Reached Link.Command.IsPlain := answering_reached _
  have hforged : forged.Reached Link.Command.IsPlain := answering_reached _
  have hwhole : ready.Hears Query.connectedPeers (.object [(utf8 "peers", .array [.int 3, .bool true])]) :=
    (hready.hears_iff_of_receptive rfl (.clear _ rfl rfl rfl)).mpr ⟨rfl, rfl, _, _, rfl, rfl, rfl⟩
  have hpart : torn.Hears Query.connectedPeers
      (.object [(utf8 "peers", .array [.int 3, .string (utf8 "4")])]) :=
    (htorn.hears_iff_of_receptive rfl (.clear _ rfl rfl rfl)).mpr ⟨rfl, rfl, _, _, rfl, rfl, rfl⟩
  have hmessage : forged.Hears (Query.chatMessages (utf8 "peer")) (.object [(utf8 "messages",
      .array [.object [(utf8 "fromPeer", .string (utf8 "a")), (utf8 "message", .string (utf8 "c")),
        (utf8 "signature", .string (utf8 "!!!!")), (utf8 "toPeer", .string (utf8 "b"))]])]) :=
    (hforged.hears_iff_of_receptive rfl (.clear _ rfl rfl rfl)).mpr ⟨rfl, rfl, _, _, rfl, rfl, rfl⟩
  have hvalues := ((listed_whole hready).1 _ "peers" .connectedPeers).1 _ _ hwhole ⟨rfl, by
    simp only [List.forall_mem_cons]
    exact ⟨⟨3, rfl⟩, ⟨1, rfl⟩, nofun⟩⟩
  have hempty := ((listed_whole htorn).1 _ "peers" .connectedPeers).2 fun reply elements hheard hlegible => by
    cases hpart.unique hheard
    cases hlegible.array
    obtain ⟨value, hvalue⟩ := hlegible.read (.string (utf8 "4")) (by simp)
    cases hvalue
  exact ⟨hready, Except.ok.inj ((mapM_eq_ok_iff.mpr hvalues).symm.trans rfl), htorn, hempty, hforged,
    (listed_whole hforged).2 _ _ _ _ (utf8 "!!!!") hmessage rfl (.head _) rfl nofun⟩

end Node

end Offload
