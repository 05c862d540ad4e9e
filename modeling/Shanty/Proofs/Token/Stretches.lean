/-
# Spans say where tokens stand

A scanner stands where walking over all the text that it has read leads to. It is so from the
start and after every step, whether the step finds a token or a mistake. The span of a token
therefore runs between the places in front of and behind the stretch of text that it was read
from, and this stretch does not start with a blank.
-/

import Shanty.Proofs.Token.Cutting

namespace Shanty

open Token.Lexer

namespace Span

/-- A span runs over a stretch of a source text, between what stands in front of it and what
stands behind it. -/
structure Covers (span : Span) (source before text after : List Char) : Prop where
  whole : source = before ++ (text ++ after)
  start_eq : span.start = Position.origin.advance before
  stop_eq : span.stop = Position.origin.advance (before ++ text)

end Span

namespace Scanner

/-- A scanner that has read the front of a source text. -/
structure HasRead (source before : List Char) (scanner : Scanner) : Prop where
  whole : source = before ++ scanner.rest
  place_eq : scanner.place = Position.origin.advance before

namespace HasRead

variable {source before : List Char} {scanner : Scanner}

theorem start (source : List Char) (breakage : Option String) :
    HasRead source [] { rest := source, breakage } := ⟨rfl, rfl⟩

theorem skipGap (hread : HasRead source before scanner) :
    HasRead source (before ++ (splitGap false scanner.rest).1) scanner.skipGap where
  whole := by
    rw [hread.whole, List.append_assoc]
    exact congrArg (before ++ ·) (splitGap_append false scanner.rest).symm
  place_eq := by
    rw [Position.advance_append, ← hread.place_eq]
    rfl

/-- Taking a piece of text reads it, and what comes of it points at it. -/
theorem take (hread : HasRead source before scanner) {piece : Piece}
    (hpiece : scanner.rest = piece.text ++ piece.rest) :
    HasRead source (before ++ piece.text) (scanner.take piece).2 ∧
      ∀ token, (scanner.take piece).1 = .token token →
        token.span.Covers source before piece.text piece.rest := by
  have hwhole : source = before ++ (piece.text ++ piece.rest) := hpiece ▸ hread.whole
  have hstop : scanner.place.advance piece.text = Position.origin.advance (before ++ piece.text) := by
    rw [Position.advance_append, hread.place_eq]
  unfold Scanner.take
  cases piece.verdict with
  | mistake error =>
      refine ⟨⟨by rw [hwhole, List.append_assoc], hstop⟩, ?_⟩
      rintro token ⟨⟩
  | token kind =>
      refine ⟨⟨by rw [hwhole, List.append_assoc], hstop⟩, ?_⟩
      rintro token ⟨⟩
      rw [Token.span_makeToken]
      exact ⟨hwhole, hread.place_eq, hstop⟩

end HasRead

/-- What a scanner finds at its next step: the token stands where its span says, and no blank
belongs to it. -/
def Points (source : List Char) (scan : Scan) : Prop :=
  ∀ token, scan = .token token → ∃ before text after,
    token.span.Covers source before text after ∧ ∀ c ∈ text.head?, isBlank c = false

/-- Where the text could not be read any further, there is no token. -/
theorem points_unreadable (source : List Char) (reason : String) :
    Points source (.unreadable reason) := by
  rintro token ⟨⟩

/-- A step of the scanner reads on and points at what it has read. -/
theorem HasRead.next {source before : List Char} {scanner : Scanner}
    (hread : HasRead source before scanner) :
    (∃ front, HasRead source front scanner.next.2) ∧ Points source scanner.next.1 := by
  have hskip := hread.skipGap
  obtain ⟨hstarts, -⟩ := gap_of_splitGap false scanner.rest
  unfold Scanner.next nextHere
  cases hrest : scanner.skipGap.rest with
  | nil =>
      simp only
      unfold finish
      split
      · exact ⟨⟨_, hskip⟩, points_unreadable source _⟩
      · refine ⟨⟨_, hskip.whole, hskip.place_eq⟩, ?_⟩
        rintro token ⟨⟩
        refine ⟨_, [], [], ⟨?_, hskip.place_eq, ?_⟩, by simp⟩
        · rw [hskip.whole, hrest]
          rfl
        · rw [List.append_nil]
          exact hskip.place_eq
  | cons c rest =>
      have hpiece : scanner.skipGap.rest = _ :=
        hrest.trans (read_append scanner.skipGap.pending c rest).symm
      obtain ⟨hafter, hcovers⟩ := hskip.take hpiece
      have hblank : isBlank c = false := hstarts.1 c (by
        show c ∈ (scanner.skipGap.rest).head?
        rw [hrest]
        rfl)
      have hhead : (read scanner.skipGap.pending c rest).text.head? = some c := by
        have hwhole := read_append scanner.skipGap.pending c rest
        cases htext : (read scanner.skipGap.pending c rest).text with
        | nil => exact absurd htext (read_text_ne_nil _ _ _)
        | cons first more =>
            rw [htext] at hwhole
            exact congrArg some (List.cons.inj hwhole).1
      have htaken : Points source (scanner.skipGap.take (read scanner.skipGap.pending c rest)).1 := by
        intro token htoken
        refine ⟨_, _, _, hcovers token htoken, ?_⟩
        rw [hhead]
        rintro _ ⟨⟩
        exact hblank
      simp only
      unfold settle
      split
      · split
        · exact ⟨⟨_, hskip⟩, points_unreadable source _⟩
        · exact ⟨⟨_, hafter⟩, htaken⟩
      · exact ⟨⟨_, hafter⟩, htaken⟩

/-- Every token of a source text stands where its span says, also behind mistakes. -/
theorem points_of_mem_scanAll {source : List Char} {breakage : Option String} {patient : Bool}
    {scan : Scan} (hmem : scan ∈ scanAll patient { rest := source, breakage }) :
    Points source scan := by
  have hstep : ∀ scanner, (∃ before, HasRead source before scanner) →
      (∃ before, HasRead source before scanner.next.2) ∧ Points source scanner.next.1 :=
    fun scanner ⟨_, hread⟩ => hread.next
  exact forall_mem_scanAll hstep patient ⟨[], HasRead.start source breakage⟩ scan hmem

end Scanner

end Shanty
