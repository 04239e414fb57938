import Offload.Link.Handle

namespace Offload.Handle

namespace Act

mutual

def tags : Act → List Bytes
  | register tag acts => tag :: tagsOf acts
  | clear | cancel => []

def tagsOf : List Act → List Bytes
  | [] => []
  | act :: rest => act.tags ++ tagsOf rest

end

theorem tagsOf_append (acts more : List Act) : tagsOf (acts ++ more) = tagsOf acts ++ tagsOf more := by
  induction acts with
  | nil => simp [tagsOf]
  | cons act rest ih => simp [tagsOf, ih]

def note? : Act → Option Note
  | register tag acts => some ⟨tag, acts⟩
  | clear | cancel => none

end Act

open Act

def Note.tags (note : Note) : List Bytes := note.tag :: Act.tagsOf note.acts

theorem tags_eq (act : Act) : act.tags = act.note?.elim [] Note.tags := by
  cases act <;> simp [Note.tags, note?, Act.tags]

variable {handle : Handle Note}

theorem take_of_cancelled (hcancelled : handle.cancelled = true) (act : Act) :
    handle.take act = (handle, act.note?) := by
  cases act <;> simp only [take, onCancel, cancel, hcancelled, if_true, note?]

theorem take_of_open (hopen : handle.cancelled = false) {act : Act} (hact : act ≠ .cancel) :
    handle.take act = ({ handle with action := act.note? }, none) := by
  cases act with
  | cancel => exact (hact rfl).elim
  | register | clear => simp only [take, onCancel, hopen, Bool.false_eq_true, if_false, note?]

theorem take_cancel_of_open (hopen : handle.cancelled = false) :
    handle.take .cancel = ({ handle with cancelled := true, action := none }, handle.action) := by
  simp only [take, cancel, hopen, Bool.false_eq_true, if_false]

theorem cancelled_of_due {act : Act} {note : Note} (hdue : (handle.take act).2 = some note) :
    (handle.take act).1.cancelled = true := by
  cases hcancelled : handle.cancelled with
  | true => rwa [take_of_cancelled hcancelled]
  | false =>
    by_cases hact : act = .cancel
    · rw [hact, take_cancel_of_open hcancelled]
    · rw [take_of_open hcancelled hact] at hdue
      cases hdue

theorem perform_of_idle {tags : List Bytes} {act : Act} {after : Handle Note}
    (htake : handle.take act = (after, none)) (rest : List Act) :
    perform (handle, tags) (act :: rest) = perform (after, tags) rest := by
  rw [perform]
  split
  · next found hfound => cases htake.symm.trans hfound; rfl
  · next found note hfound => cases htake.symm.trans hfound

theorem perform_of_due {tags : List Bytes} {act : Act} {after : Handle Note} {note : Note}
    (htake : handle.take act = (after, some note)) (rest : List Act) :
    perform (handle, tags) (act :: rest) = perform (after, tags ++ [note.tag]) (note.acts ++ rest) := by
  rw [perform]
  split
  · next found hfound => cases htake.symm.trans hfound
  · next found other hfound => cases htake.symm.trans hfound; rfl

theorem perform_append (state : Handle Note × List Bytes) (acts more : List Act) :
    perform state (acts ++ more) = perform (perform state acts) more := by
  fun_induction perform state acts with
  | case1 state => rfl
  | case2 state act rest after htake ih => rw [List.cons_append, perform_of_idle htake, ih]
  | case3 state act rest after note htake ih =>
    rw [List.cons_append, perform_of_due htake, ← List.append_assoc, ih]

theorem perform_of_cancelled {state : Handle Note × List Bytes} (hcancelled : state.1.cancelled = true)
    (acts : List Act) : perform state acts = (state.1, state.2 ++ Act.tagsOf acts) := by
  fun_induction perform state acts with
  | case1 state => rw [Act.tagsOf, List.append_nil]
  | case2 state act rest after htake ih =>
    rw [take_of_cancelled hcancelled, Prod.mk.injEq] at htake
    obtain ⟨rfl, hnone⟩ := htake
    rw [ih hcancelled, Act.tagsOf, tags_eq, hnone]
    rfl
  | case3 state act rest after note htake ih =>
    rw [take_of_cancelled hcancelled, Prod.mk.injEq] at htake
    obtain ⟨rfl, hnote⟩ := htake
    rw [ih hcancelled, Act.tagsOf, tags_eq, hnote, Act.tagsOf_append]
    simp [Note.tags]

theorem perform_of_open (hopen : handle.cancelled = false) {acts : List Act} (hacts : .cancel ∉ acts)
    (tags : List Bytes) :
    perform (handle, tags) acts =
      ({ handle with action := acts.getLast?.elim handle.action note? }, tags) := by
  induction acts generalizing handle with
  | nil => rw [perform]; rfl
  | cons act rest ih =>
    rw [List.mem_cons, not_or] at hacts
    rw [perform_of_idle (take_of_open hopen (Ne.symm hacts.1)),
      @ih { handle with action := act.note? } hopen hacts.2]
    cases rest with
    | nil => rfl
    | cons next rest => rw [List.getLast?_cons_cons, List.getLast?_cons]; rfl

/-- The action that acts without a cancellation leave for it: the last one, whatever was before. -/
def kept (acts : List Act) : Option Note := acts.getLast?.bind note?

theorem tags_kept_sublist (acts : List Act) :
    ((kept acts).elim [] Note.tags).Sublist (Act.tagsOf acts) := by
  cases hlast : acts.getLast? with
  | none =>
    rw [kept, hlast]
    exact List.nil_sublist _
  | some last =>
    obtain ⟨front, rfl⟩ := List.getLast?_eq_some_iff.mp hlast
    have hsingle : Act.tagsOf [last] = last.tags := by simp [Act.tagsOf]
    rw [kept, hlast, Option.bind_some, ← tags_eq, Act.tagsOf_append, hsingle]
    exact List.sublist_append_right _ _

theorem perform_uncancelled (id : Nat) {acts : List Act} (hacts : .cancel ∉ acts) :
    perform ({ id }, []) acts = ({ id, action := kept acts }, []) := by
  rw [perform_of_open rfl hacts, kept]
  cases acts.getLast? <;> rfl

theorem perform_cancelled (id : Nat) {before : List Act} (hbefore : .cancel ∉ before)
    (later : List Act) :
    perform ({ id }, []) (before ++ .cancel :: later) =
      ({ id, cancelled := true }, (kept before).elim [] Note.tags ++ Act.tagsOf later) := by
  have hcancel := @take_cancel_of_open { id, action := kept before } rfl
  rw [perform_append, perform_uncancelled id hbefore]
  cases hkept : kept before with
  | none =>
    rw [hkept] at hcancel
    rw [perform_of_idle hcancel, perform_of_cancelled rfl]
    rfl
  | some note =>
    rw [hkept] at hcancel
    rw [perform_of_due hcancel, perform_of_cancelled rfl, Act.tagsOf_append]
    simp [Note.tags]

/-- A handle hands out each action at most once. Whatever is registered on it and however often it is
cancelled, also from within the actions themselves, these run: at the first cancellation the action that
was registered last before it, unless that was an empty one, and from then on each action as soon as it
is registered. The handle is cancelled from the first cancellation on, for the actions as well. -/
theorem actions_run_once (id : Nat) (acts : List Act) :
    (.cancel ∉ acts → perform ({ id }, []) acts = ({ id, action := kept acts }, [])) ∧
      (∀ before later, acts = before ++ .cancel :: later → .cancel ∉ before →
        perform ({ id }, []) acts =
          ({ id, cancelled := true }, (kept before).elim [] Note.tags ++ Act.tagsOf later)) ∧
      ((perform ({ id }, []) acts).1.cancelled = true ↔ .cancel ∈ acts) ∧
      (perform ({ id }, []) acts).2.Sublist (Act.tagsOf acts) ∧
      ∀ (handle : Handle Note) (act : Act) (note : Note), (handle.take act).2 = some note →
        (handle.take act).1.cancelled = true := by
  have hfirst : ∀ before later, acts = before ++ .cancel :: later → .cancel ∉ before →
      perform ({ id }, []) acts =
        ({ id, cancelled := true }, (kept before).elim [] Note.tags ++ Act.tagsOf later) := by
    rintro before later rfl hbefore
    exact perform_cancelled id hbefore later
  refine ⟨perform_uncancelled id, hfirst, ?_, ?_, fun _ _ _ hdue => cancelled_of_due hdue⟩
  · by_cases hacts : .cancel ∈ acts
    · obtain ⟨before, later, hsplit, hbefore⟩ := List.eq_append_cons_of_mem hacts
      rw [hfirst before later hsplit hbefore]
      exact iff_of_true rfl hacts
    · rw [perform_uncancelled id hacts]
      exact iff_of_false nofun hacts
  · by_cases hacts : .cancel ∈ acts
    · obtain ⟨before, later, hsplit, hbefore⟩ := List.eq_append_cons_of_mem hacts
      rw [hfirst before later hsplit hbefore, hsplit, Act.tagsOf_append, Act.tagsOf]
      exact (tags_kept_sublist before).append (List.sublist_append_right _ _)
    · rw [perform_uncancelled id hacts]
      exact List.nil_sublist _

def replaced : List Act :=
  [.register (utf8 "a") [], .clear,
    .register (utf8 "b") [.cancel, .register (utf8 "c") [.cancel], .clear]]

/-- The first action never runs. The one registered inside the second runs with it, those behind the
cancellation when they are registered. -/
theorem actions_run_once_replaced :
    .cancel ∉ replaced ∧
      perform ({ id := 7 }, [])
        (replaced ++ .cancel ::
          [.clear, .cancel, .register (utf8 "d") [.cancel, .register (utf8 "e") []]]) =
        ({ id := 7, cancelled := true }, [utf8 "b", utf8 "c", utf8 "d", utf8 "e"]) := by
  have hreplaced : .cancel ∉ replaced := by simp [replaced]
  exact ⟨hreplaced, (actions_run_once 7 _).2.1 _ _ rfl hreplaced⟩

end Offload.Handle
