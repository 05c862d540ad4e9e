/-
# Tokens stand one after the other

Places are ordered by their lines, and on one line by their columns. Reading on from a place never
leads back. So the tokens that a text is cut into stand in order, none of them overlaps the next
one, and all of them but the end token have some extent.
-/

import Mathlib.Order.Basic
import Shanty.Proofs.Token.Cutting

namespace Shanty

namespace Position

/-- A place comes before those on later lines and those further to the right on its own line. -/
instance : PartialOrder Position where
  le first second :=
    first.line < second.line ∨ first.line = second.line ∧ first.col ≤ second.col
  lt first second :=
    first.line < second.line ∨ first.line = second.line ∧ first.col < second.col
  le_refl _ := .inr ⟨rfl, Int.le_refl _⟩
  le_trans first second third := by omega
  lt_iff_le_not_ge first second := by omega
  le_antisymm first second hle hge := by
    obtain ⟨line, col⟩ := first
    obtain ⟨line', col'⟩ := second
    simp only [mk.injEq] at *
    omega

theorem le_def {first second : Position} :
    first ≤ second ↔
      first.line < second.line ∨ first.line = second.line ∧ first.col ≤ second.col := .rfl

theorem lt_def {first second : Position} :
    first < second ↔
      first.line < second.line ∨ first.line = second.line ∧ first.col < second.col := .rfl

theorem lt_step (place : Position) (c : Char) : place < place.step c := by
  rw [lt_def, step, tabWidth]
  split
  · exact .inl (Int.lt_succ _)
  · split
    · exact .inr ⟨rfl, by dsimp only; omega⟩
    · exact .inr ⟨rfl, Int.lt_succ _⟩

theorem le_advance (place : Position) (text : List Char) : place ≤ place.advance text := by
  induction text generalizing place with
  | nil => exact le_refl place
  | cons c text ih => exact (lt_step place c).le.trans (ih _)

theorem lt_advance (place : Position) {text : List Char} (hne : text ≠ []) :
    place < place.advance text := by
  cases text with
  | nil => exact absurd rfl hne
  | cons c text => exact (lt_step place c).trans_le (le_advance _ text)

end Position

namespace Span

/-- A span ends before another one starts, and neither is empty. -/
structure Precedes (first second : Span) : Prop where
  apart : first.stop ≤ second.start
  start_lt : first.start < second.start
  stop_lt : first.stop < second.stop

/-- A span lies within another one. -/
structure Within (inner outer : Span) : Prop where
  start_le : outer.start ≤ inner.start
  stop_le : inner.stop ≤ outer.stop

end Span

namespace Token

/-- Tokens that stand one after the other. -/
structure InOrder (tokens : List Token) : Prop where
  extent : ∀ token ∈ tokens, token.span.start < token.span.stop
  apart : tokens.Pairwise fun earlier later => earlier.span.stop ≤ later.span.start

namespace InOrder

variable {tokens front back : List Token}

theorem left (horder : InOrder (front ++ back)) : InOrder front :=
  ⟨fun token hmem => horder.extent token (List.mem_append_left back hmem),
    (List.pairwise_append.1 horder.apart).1⟩

theorem right (horder : InOrder (front ++ back)) : InOrder back :=
  ⟨fun token hmem => horder.extent token (List.mem_append_right front hmem),
    (List.pairwise_append.1 horder.apart).2.1⟩

theorem across (horder : InOrder (front ++ back)) :
    ∀ earlier ∈ front, ∀ later ∈ back, earlier.span.stop ≤ later.span.start :=
  (List.pairwise_append.1 horder.apart).2.2

theorem start_le {first : Token} (horder : InOrder tokens) (hfirst : tokens.head? = some first) :
    ∀ token ∈ tokens, first.span.start ≤ token.span.start := by
  obtain ⟨rest, rfl⟩ := List.head?_eq_some_iff.1 hfirst
  intro token hmem
  rcases List.mem_cons.1 hmem with rfl | hmem
  · exact le_refl _
  · have hextent := horder.extent first List.mem_cons_self
    exact hextent.le.trans (List.rel_of_pairwise_cons horder.apart hmem)

theorem le_stop {last : Token} (horder : InOrder tokens) (hlast : tokens.getLast? = some last) :
    ∀ token ∈ tokens, token.span.stop ≤ last.span.stop := by
  obtain ⟨front, rfl⟩ := List.getLast?_eq_some_iff.1 hlast
  intro token hmem
  rcases List.mem_append.1 hmem with hmem | hmem
  · have hextent := horder.extent last (by simp)
    exact (horder.across token hmem last (by simp)).trans hextent.le
  · rw [List.mem_singleton.1 hmem]

end InOrder

/-- The tokens of a text stand in order from the place on where the text begins, up to the end
token. -/
theorem Cuts.ordered {place : Position} {text : List Char} {tokens : List Token}
    (hcuts : Cuts place text tokens) :
    (∀ token ∈ tokens, place ≤ token.span.start ∧ token.span.start ≤ token.span.stop ∧
      (token.kind ≠ .endOfFile → token.span.start < token.span.stop)) ∧
    tokens.Pairwise fun earlier later => earlier.span.stop ≤ later.span.start := by
  induction hcuts with
  | @done place gap hgap =>
      refine ⟨?_, List.pairwise_singleton _ _⟩
      rw [List.forall_mem_singleton]
      exact ⟨place.le_advance gap, le_refl _, fun hkind => absurd rfl hkind⟩
  | @next place text gap lexeme after kind tokens hfirst hcuts ih =>
      obtain ⟨hbounds, hapart⟩ := ih
      have hlexeme := (place.advance gap).lt_advance hfirst.isLexeme.ne_nil
      rw [← Position.advance_append] at hlexeme
      have hgap := place.le_advance gap
      refine ⟨?_, ?_⟩
      · rw [List.forall_mem_cons, span_makeToken]
        refine ⟨⟨hgap, hlexeme.le, fun _ => hlexeme⟩, fun token hmem => ?_⟩
        exact ⟨(hgap.trans hlexeme.le).trans (hbounds token hmem).1, (hbounds token hmem).2⟩
      · rw [List.pairwise_cons, span_makeToken]
        exact ⟨fun token hmem => (hbounds token hmem).1, hapart⟩

end Token

end Shanty
