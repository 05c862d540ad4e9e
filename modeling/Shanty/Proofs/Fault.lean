/-
# Computations that may break off

What can be said of a computation that may end in an error: of its answer, if there is one, and of
the steps of which it is made.
-/

import Mathlib.Data.List.Forall2

namespace Shanty

/-- A computation that succeeds has succeeded up to any point in it. -/
theorem exists_of_bind_eq_ok {ε α β : Type} {first : Except ε α} {next : α → Except ε β} {answer : β}
    (hrun : (first >>= next) = .ok answer) :
    ∃ middle, first = .ok middle ∧ next middle = .ok answer := by
  cases first with
  | error reason => cases hrun
  | ok middle => exact ⟨middle, rfl, hrun⟩

/-- Whatever a computation answers, if it succeeds, has a property. -/
def Ensures {ε α : Type} (outcome : Except ε α) (post : α → Prop) : Prop :=
  ∀ answer, outcome = .ok answer → post answer

namespace Ensures

variable {ε α β : Type} {post : α → Prop}

theorem ok {answer : α} (hpost : post answer) : Ensures (.ok answer : Except ε α) post := by
  intro answer' heq
  cases heq
  exact hpost

theorem pure {answer : α} (hpost : post answer) : Ensures (pure answer : Except ε α) post := ok hpost

theorem error {reason : ε} : Ensures (.error reason) post := nofun

/-- What is ensured twice is ensured at once. -/
theorem both {outcome : Except ε α} {other : α → Prop} (hfirst : Ensures outcome post)
    (hsecond : Ensures outcome other) : Ensures outcome fun answer => post answer ∧ other answer :=
  fun answer hrun => ⟨hfirst answer hrun, hsecond answer hrun⟩

/-- Nothing in particular is ensured. -/
theorem trivially (outcome : Except ε α) : Ensures outcome fun _ => True := fun _ _ => trivial

theorem bind {first : Except ε α} {next : α → Except ε β} {final : β → Prop}
    (hfirst : Ensures first post) (hnext : ∀ answer, post answer → Ensures (next answer) final) :
    Ensures (first >>= next) final := by
  intro answer hrun
  obtain ⟨middle, hmiddle, hrun⟩ := exists_of_bind_eq_ok hrun
  exact hnext middle (hfirst middle hmiddle) answer hrun

theorem map {outcome : Except ε α} {change : α → β} {final : β → Prop}
    (houtcome : Ensures outcome fun answer => final (change answer)) :
    Ensures (outcome.map change) final := by
  cases outcome with
  | error => exact error
  | ok answer => exact ok (houtcome answer rfl)

theorem mapM {compute : α → Except ε β} {related : α → β → Prop} {inputs : List α}
    (hensures : ∀ input ∈ inputs, Ensures (compute input) (related input)) :
    Ensures (inputs.mapM compute) (List.Forall₂ related inputs) := by
  induction inputs with
  | nil => exact .pure .nil
  | cons input inputs ih =>
      rw [List.forall_mem_cons] at hensures
      rw [List.mapM_cons]
      refine hensures.1.bind fun output houtput => ?_
      exact (ih hensures.2).bind fun outputs houtputs => .pure (.cons houtput houtputs)

end Ensures

end Shanty
