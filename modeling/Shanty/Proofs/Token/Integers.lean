/-
# Runs of digits

An integer literal is a run of digits, as many as one likes and with any number of zeros in front. It
denotes its decimal value, or the largest integer if that is exceeded, and a remark is made about it
in that case only. The token may have zeros in front where its number has none, so what is compared
here are numbers.
-/

import Mathlib.Data.List.Basic
import Shanty.Proofs.Tree.Leaves

namespace Shanty

open Text (decimalValue isDigit)

/-- Where an integer stands, and the integer, if a literal is one. -/
def Literal.integer? : Literal → Option (Span × Nat)
  | .int span value => some (span, value)
  | .string _ _ => none

namespace Token

open Token.Lexer (makeToken Lexeme)

/-- A run of digits at its place in a source. -/
structure Run where
  span : Span
  digits : List Char

namespace Run

/-- The number that a run of digits denotes. -/
def number (run : Run) : Nat := min (decimalValue run.digits) maxInt

/-- Whether the digits go beyond the largest integer. -/
def isLarge (run : Run) : Bool := maxInt < decimalValue run.digits

/-- What is remarked about a run of digits that goes beyond the largest integer. -/
def warning (run : Run) : Message := .warning run.span "Integer literal too large; using max value"

theorem number_le (run : Run) : run.number ≤ maxInt := Nat.min_le_right _ _

end Run

namespace Cut

/-- The run of digits that a token is made of, if it is an integer. -/
def run? (cut : Cut) : Option Run :=
  if cut.token.kind = .intLiteral then some ⟨cut.token.span, cut.text⟩ else none

theorem run?_eq_none {cut : Cut} (hkind : cut.token.kind ≠ .intLiteral) : cut.run? = none :=
  if_neg hkind

theorem run?_eq_some {cut : Cut} (hkind : cut.token.kind = .intLiteral) :
    cut.run? = some ⟨cut.token.span, cut.text⟩ :=
  if_pos hkind

variable {cut : Cut}

/-- The token of a run of digits denotes the same number. -/
theorem literal?_eq (hlexeme : Lexeme cut.token.kind cut.text)
    (hmade : cut.token = makeToken cut.token.kind cut.text cut.token.span) :
    cut.token.literal?.bind (·.integer?) = cut.run?.map fun run => (run.span, run.number) := by
  by_cases hkind : cut.token.kind = .intLiteral
  · have hvalue : decimalValue cut.token.text.toList = min (decimalValue cut.text) maxInt := by
      rw [makeToken_eq hlexeme] at hmade
      by_cases hlarge : maxInt < decimalValue cut.text
      · rw [if_pos ⟨hkind, hlarge⟩] at hmade
        rw [hmade, Nat.min_eq_right (Nat.le_of_lt hlarge)]
        exact (by decide : decimalValue "2147483647".toList = maxInt)
      · rw [if_neg fun hboth => hlarge hboth.2] at hmade
        rw [hmade, String.toList_ofList, Nat.min_eq_left (Nat.le_of_not_lt hlarge)]
    rw [run?_eq_some hkind, Option.map_some, Run.number, ← hvalue]
    simp [literal?, hkind, Literal.integer?]
  · rw [run?_eq_none hkind, Option.map_none]
    unfold literal?
    split
    next hint => exact absurd hint hkind
    next => rfl
    next => rfl

/-- A remark is made about a run of digits if it goes too far, and about nothing else. -/
theorem warning?_eq (hlexeme : Lexeme cut.token.kind cut.text)
    (hmade : cut.token = makeToken cut.token.kind cut.text cut.token.span) :
    cut.token.warning? = (cut.run?.filter (·.isLarge)).map (·.warning) := by
  rw [makeToken_eq hlexeme] at hmade
  by_cases hkind : cut.token.kind = .intLiteral
  · rw [run?_eq_some hkind]
    by_cases hlarge : maxInt < decimalValue cut.text
    · rw [if_pos ⟨hkind, hlarge⟩] at hmade
      have hclamped : cut.token.clamped = true := congrArg (·.clamped) hmade
      simp [warning?, hclamped, Option.filter, Run.isLarge, hlarge, Run.warning]
    · rw [if_neg fun hboth => hlarge hboth.2] at hmade
      have hclamped : cut.token.clamped = false := congrArg (·.clamped) hmade
      simp [warning?, hclamped, Option.filter, Run.isLarge, hlarge]
  · rw [if_neg fun hboth => hkind hboth.1] at hmade
    have hclamped : cut.token.clamped = false := congrArg (·.clamped) hmade
    simp [warning?, hclamped, run?_eq_none hkind]

end Cut

/-- The runs of digits among some cuts. -/
def runsOf (cuts : List Cut) : List Run := cuts.filterMap (·.run?)

namespace Alternation

variable {front text last : List Char} {tokens : List Token} {cuts : List Cut}

theorem isLexeme (halternation : Alternation front text tokens cuts last) {cut : Cut}
    (hmem : cut ∈ cuts) : Lexeme cut.token.kind cut.text := by
  obtain ⟨before, after, rfl⟩ := List.append_of_mem hmem
  exact (halternation.fits before cut after rfl).isLexeme

/-- A run of digits has at least one of them and nothing else. -/
theorem digits (halternation : Alternation front text tokens cuts last) {run : Run}
    (hmem : run ∈ runsOf cuts) : run.digits ≠ [] ∧ ∀ c ∈ run.digits, isDigit c = true := by
  obtain ⟨cut, hcut, hrun⟩ := List.mem_filterMap.1 hmem
  have hlexeme := halternation.isLexeme hcut
  by_cases hkind : cut.token.kind = .intLiteral
  · rw [Cut.run?_eq_some hkind] at hrun
    obtain rfl := Option.some.inj hrun
    exact ⟨hlexeme.ne_nil, hlexeme.parts.2.1 hkind⟩
  · rw [Cut.run?_eq_none hkind] at hrun
    cases hrun

/-- The integers among the tokens are the numbers that the runs of digits denote. -/
theorem integers (halternation : Alternation front text tokens cuts last) :
    (tokens.filterMap Token.literal?).filterMap Literal.integer? =
      (runsOf cuts).map fun run => (run.span, run.number) := by
  have hend : (finale (Position.origin.advance (front ++ text))).literal? = none := rfl
  rw [halternation.tokens_eq, List.filterMap_filterMap, List.filterMap_append, List.filterMap_map,
    runsOf, List.map_filterMap]
  simp only [List.filterMap_cons, hend, Option.bind_none, List.filterMap_nil, List.append_nil]
  exact List.filterMap_congr fun cut hcut =>
    Cut.literal?_eq (halternation.isLexeme hcut) (halternation.made cut hcut)

/-- The remarks on the tokens are about the runs of digits that go too far, one about each. -/
theorem warnings (halternation : Alternation front text tokens cuts last) :
    TokenStream.warnings tokens = ((runsOf cuts).filter (·.isLarge)).map (·.warning) := by
  have hend : (finale (Position.origin.advance (front ++ text))).warning? = none := rfl
  rw [TokenStream.warnings, halternation.tokens_eq, List.filterMap_append, List.filterMap_map,
    runsOf, List.filter_filterMap, List.map_filterMap]
  simp only [List.filterMap_cons, hend, List.filterMap_nil, List.append_nil]
  exact List.filterMap_congr fun cut hcut =>
    Cut.warning?_eq (halternation.isLexeme hcut) (halternation.made cut hcut)

end Alternation

end Token

end Shanty
