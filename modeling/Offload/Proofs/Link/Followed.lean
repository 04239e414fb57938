import Offload.Proofs.Link.Course
import Offload.Proofs.Link.Kept

namespace Offload

open Loop

namespace Link

variable {id : Nat} {operation : Operation} {term : Term} {marks : List Mark} {record : Record}
  {env env' : Environment} {loop : Loop} {rest loops after : List Loop} {task : Task}

theorem turnAny_foreign (hforeign : ∀ loop ∈ loops, loop.Foreign id)
    (hturn : turnAny env loops = some (env', after)) :
    ofCall id (marksAny env loops) = [] ∧ ∀ loop ∈ after, loop.Foreign id := by
  induction loops generalizing after with
  | nil => cases hturn
  | cons loop rest ih =>
    rw [List.forall_mem_cons] at hforeign
    rw [turnAny] at hturn
    rw [marksAny]
    cases hstep : loop.turn env with
    | some found =>
      simp only [hstep, Option.some.injEq, Prod.mk.injEq] at hturn
      obtain ⟨rfl, rfl⟩ := hturn
      obtain ⟨hnone, hquiet⟩ := Quiet.turn hforeign.1 hstep
      exact ⟨hnone, List.forall_mem_cons.mpr ⟨hquiet, hforeign.2⟩⟩
    | none =>
      simp only [hstep] at hturn
      obtain ⟨⟨found, left⟩, hfound, heq⟩ := Option.map_eq_some_iff.mp hturn
      cases heq
      obtain ⟨hnone, hleft⟩ := ih hforeign.2 hfound
      exact ⟨hnone, List.forall_mem_cons.mpr ⟨hforeign.1, hleft⟩⟩

/-- The call is on the first of the loops. -/
def Leads (id : Nat) (operation : Operation) (term : Term) (marks : List Mark) (loops : List Loop) :
    Prop :=
  ∃ loop rest, loops = loop :: rest ∧ loop.Course id operation term marks ∧
    ∀ other ∈ rest, other.Foreign id

/-- The call is on one of the loops, or its loop is gone. -/
inductive Followed (id : Nat) (operation : Operation) (term : Term) (marks : List Mark) :
    List Loop → Prop
  | gone (hfinished : Finished operation term marks) : Followed id operation term marks []
  | here {loop : Loop} {rest : List Loop} (hcourse : loop.Course id operation term marks)
    (hforeign : ∀ other ∈ rest, other.Foreign id) : Followed id operation term marks (loop :: rest)
  | beyond {loop : Loop} {rest : List Loop} (hforeign : loop.Foreign id)
    (hrest : Followed id operation term marks rest) : Followed id operation term marks (loop :: rest)

theorem Followed.of_finished (hfinished : Finished operation term marks)
    (hforeign : ∀ loop ∈ loops, loop.Foreign id) : Followed id operation term marks loops := by
  induction loops with
  | nil => exact .gone hfinished
  | cons loop rest ih =>
    rw [List.forall_mem_cons] at hforeign
    exact .beyond hforeign.1 (ih hforeign.2)

theorem Leads.followed (hleads : Leads id operation term marks loops) :
    Followed id operation term marks loops := by
  obtain ⟨loop, rest, rfl, hcourse, hforeign⟩ := hleads
  exact .here hcourse hforeign

theorem Leads.turnAny (hleads : Leads id operation term marks loops)
    (hturn : turnAny env loops = some (env', after)) :
    Leads id operation term (marks ++ ofCall id (marksAny env loops)) after := by
  obtain ⟨loop, rest, rfl, hcourse, hforeign⟩ := hleads
  rw [Link.turnAny] at hturn
  rw [marksAny]
  cases hstep : loop.turn env with
  | some found =>
    simp only [hstep, Option.some.injEq, Prod.mk.injEq] at hturn
    obtain ⟨rfl, rfl⟩ := hturn
    exact ⟨found.2, rest, rfl, hcourse.turn hstep, hforeign⟩
  | none =>
    simp only [hstep] at hturn
    obtain ⟨⟨found, left⟩, hfound, heq⟩ := Option.map_eq_some_iff.mp hturn
    cases heq
    obtain ⟨hnone, hleft⟩ := turnAny_foreign hforeign hfound
    refine ⟨loop, left, rfl, ?_, hleft⟩
    simpa only [Option.isSome_none, Bool.false_eq_true, if_false, hnone, List.append_nil] using hcourse

theorem Followed.turnAny (hfollowed : Followed id operation term marks loops)
    (hturn : turnAny env loops = some (env', after)) :
    Followed id operation term (marks ++ ofCall id (marksAny env loops)) after := by
  induction hfollowed generalizing after with
  | gone => cases hturn
  | here hcourse hforeign => exact (Leads.turnAny ⟨_, _, rfl, hcourse, hforeign⟩ hturn).followed
  | @beyond loop rest hforeign hrest ih =>
    rw [Link.turnAny] at hturn
    rw [marksAny]
    cases hstep : loop.turn env with
    | some found =>
      simp only [hstep, Option.some.injEq, Prod.mk.injEq] at hturn
      obtain ⟨rfl, rfl⟩ := hturn
      obtain ⟨hnone, hquiet⟩ := Quiet.turn hforeign hstep
      simp only [Option.isSome_some, if_true, hnone, List.append_nil]
      exact .beyond hquiet hrest
    | none =>
      simp only [hstep] at hturn
      obtain ⟨⟨found, left⟩, hfound, heq⟩ := Option.map_eq_some_iff.mp hturn
      cases heq
      exact .beyond hforeign (ih hfound)

/-- It makes no difference to a call that its loop, or another one, is left behind. -/
theorem Followed.rotate (hfollowed : Followed id operation term marks (loop :: rest)) :
    Followed id operation term marks (rest ++ [loop]) := by
  induction rest with
  | nil => exact hfollowed
  | cons first rest ih =>
    cases hfollowed with
    | here hcourse hforeign =>
      rw [List.forall_mem_cons] at hforeign
      exact .beyond hforeign.1 (ih (.here hcourse hforeign.2))
    | beyond hforeign hrest =>
      cases hrest with
      | here hcourse hothers =>
        refine .here hcourse fun other hmem => ?_
        rcases List.mem_append.mp hmem with hmem | hmem
        · exact hothers other hmem
        · rw [List.mem_singleton.mp hmem]
          exact hforeign
      | beyond hfirst hrest => exact .beyond hfirst (ih (.beyond hforeign hrest))

theorem lasts_leads (id : Nat) (operation : Operation) (term : Term) :
    Lasts fun _ loops record => Leads id operation term (ofCall id record) loops where
  still hnow _ := hnow
  turn hturn hnow := by
    rw [ofCall_append]
    exact hnow.turnAny hturn

theorem kept_followed (id : Nat) (operation : Operation) (hended : term ≠ .running) :
    Kept fun _ loops record => Followed id operation term (ofCall id record) loops where
  still hnow _ := hnow
  turn hturn hnow := by
    rw [ofCall_append]
    exact hnow.turnAny hturn
  ask hnow := by
    cases hnow with
    | here hcourse hforeign => exact .here (hcourse.askToStop hended) hforeign
    | beyond hforeign hrest => exact .beyond (Foreign.askToStop hforeign) hrest
  drop hdead hnow := by
    cases hnow with
    | beyond hforeign hrest => exact hrest
    | here hcourse hforeign => exact .of_finished (hcourse.finished hended hdead) hforeign
  leave hnow := hnow.rotate
  begin host port hnow := .beyond (foreign_begin host port id) hnow

theorem kept_foreign (id : Nat) (marks : List Mark) :
    Kept fun _ loops record => ofCall id record = marks ∧ ∀ loop ∈ loops, loop.Foreign id where
  still hnow _ := hnow
  turn hturn hnow := by
    obtain ⟨hnone, hafter⟩ := turnAny_foreign hnow.2 hturn
    rw [ofCall_append, hnone, List.append_nil]
    exact ⟨hnow.1, hafter⟩
  ask hnow := by
    rw [List.forall_mem_cons] at hnow ⊢
    exact ⟨hnow.1, Foreign.askToStop hnow.2.1, hnow.2.2⟩
  drop _ hnow := ⟨hnow.1, (List.forall_mem_cons.mp hnow.2).2⟩
  leave hnow := by
    refine ⟨hnow.1, fun loop hmem => hnow.2 loop ?_⟩
    rcases List.mem_append.mp hmem with hmem | hmem
    · exact List.mem_cons_of_mem _ hmem
    · exact List.mem_singleton.mp hmem ▸ List.mem_cons_self
  begin host port hnow := ⟨hnow.1, List.forall_mem_cons.mpr ⟨foreign_begin host port id, hnow.2⟩⟩

theorem Leads.post (hleads : Leads id operation term marks (loop :: rest)) (hended : term ≠ .running)
    (htask : ¬ task.Concerns id) : Leads id operation term marks (loop.post task :: rest) := by
  obtain ⟨_, _, hloops, hcourse, hforeign⟩ := hleads
  obtain ⟨rfl, rfl⟩ := List.cons.inj hloops
  exact ⟨_, _, rfl, hcourse.post hended htask, hforeign⟩

theorem Followed.post (hfollowed : Followed id operation term marks (loop :: rest))
    (hended : term ≠ .running) (htask : ¬ task.Concerns id) :
    Followed id operation term marks (loop.post task :: rest) := by
  cases hfollowed with
  | here hcourse hforeign => exact .here (hcourse.post hended htask) hforeign
  | beyond hforeign hrest => exact .beyond (Quiet.post hforeign htask) hrest

end Link

end Offload
