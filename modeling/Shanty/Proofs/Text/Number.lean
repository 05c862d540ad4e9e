/-
# Numbers are read as they are written

A number that is written in decimal and read again is the same number, and so is a word of 64
bits. The digits that are read one by one add up as they do in the conversion of digits to
numbers of the standard library.
-/

import Shanty.Text.Number

namespace Shanty.Text

/-- Reading digits adds them up. -/
theorem readDigits?_eq {digits : List Char} (hdigits : ∀ c ∈ digits, c.isDigit = true) :
    ∀ value, readDigits? value digits = some (Nat.ofDigitChars 10 digits value) := by
  induction digits with
  | nil =>
      intro value
      rw [readDigits?, Nat.ofDigitChars_nil]
  | cons c rest ih =>
      intro value
      rw [List.forall_mem_cons] at hdigits
      have hrange : '0' ≤ c ∧ c ≤ '9' := by
        simpa [Char.isDigit, Char.le_def] using hdigits.1
      have hdigit : digit? c = some (c.toNat - '0'.toNat) := by
        simp only [digit?, hrange, decide_true, Bool.and_self, if_true]
      rw [readDigits?, hdigit, Nat.ofDigitChars_cons, Nat.mul_comm 10 value]
      exact ih hdigits.2 _

theorem isDigit_of_mem (number : Nat) {c : Char} (hmem : c ∈ Nat.toDigits 10 number) :
    c.isDigit = true :=
  Nat.isDigit_of_mem_toDigits (by decide) (by decide) hmem

theorem readNat?_toDigits (number : Nat) : readNat? (Nat.toDigits 10 number) = some number := by
  have hread := readDigits?_eq (fun _ hmem => isDigit_of_mem number hmem) 0
  rw [Nat.ofDigitChars_ten_toDigits] at hread
  unfold readNat?
  split
  next hnil => exact absurd hnil Nat.toDigits_ne_nil
  next => exact hread

/-- A natural number is read as it is written. -/
theorem readInt?_repr (number : Nat) : readInt? number.repr = some (number : Int) := by
  unfold readInt?
  rw [Nat.toList_repr]
  -- The first character is a digit and no sign.
  split
  next digits heq =>
    have hdigit : ('-' : Char).isDigit = true := isDigit_of_mem number (heq ▸ .head _)
    cases hdigit
  next digits heq =>
    have hdigit : ('+' : Char).isDigit = true := isDigit_of_mem number (heq ▸ .head _)
    cases hdigit
  next =>
    rw [readNat?_toDigits]
    rfl

/-- An integer is read as it is written. -/
theorem readInt?_toString (number : Int) : readInt? (toString number) = some number := by
  cases number with
  | ofNat number => exact readInt?_repr number
  | negSucc number =>
      have hlist : (toString (Int.negSucc number)).toList = '-' :: Nat.toDigits 10 (number + 1) := by
        rw [Int.toString_eq_repr, Int.repr, String.toList_append, Nat.toList_repr]
        rfl
      unfold readInt?
      rw [hlist]
      simp only [readNat?_toDigits]
      rfl

end Shanty.Text
