/-
# Reading numbers

A number is written in decimal, with or without a sign, and nothing else around it.
Only numbers that fit into 64 bits, one of them for the sign, can be read.
-/

namespace Shanty.Text

/-- The value of a decimal digit. -/
def digit? (c : Char) : Option Nat :=
  if '0' ≤ c && c ≤ '9' then some (c.toNat - '0'.toNat) else none

/-- The number with the given digits in front of the ones to come. -/
def readDigits? (value : Nat) : List Char → Option Nat
  | [] => some value
  | c :: rest => do readDigits? (value * 10 + (← digit? c)) rest

/-- The number that is written with at least one digit and nothing else. -/
def readNat? : List Char → Option Nat
  | [] => none
  | digits => readDigits? 0 digits

/-- The number that a text is, sign and all. -/
def readInt? (text : String) : Option Int :=
  match text.toList with
  | '-' :: digits => (readNat? digits).map fun value => -(value : Int)
  | '+' :: digits => (readNat? digits).map fun value => (value : Int)
  | digits => (readNat? digits).map fun value => (value : Int)

/-- The number that a text is, if it fits into 64 bits. -/
def readInt64? (text : String) : Option Int :=
  (readInt? text).filter fun value => -0x8000000000000000 ≤ value && value < 0x8000000000000000

end Shanty.Text
