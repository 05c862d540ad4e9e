/-
# Scanning comes to an end

A scanner can be asked for more after a mistake, and then the text of the failed token is still
pending. Pending text can change what is found next, but not how far a step reads: each step passes
over a gap and then reads something that stands behind it, unless nothing does. So the end token is
found only where the text ends, as many steps as the text has characters suffice to get there, and
what the steps find starts at one place after the other.
-/

import Mathlib.Order.Monotone.Basic
import Shanty.Proofs.Token.Order

namespace Shanty

open Token.Lexer

namespace Scan

/-- Whether a step found the end token. -/
def isEnd : Scan → Bool
  | .token found => found.kind = .endOfFile
  | .mistake _ _ | .unreadable _ => false

/-- The place where the token or the mistake starts that a step found. -/
def start? : Scan → Option Position
  | .token found => some found.span.start
  | .mistake _ span => some span.start
  | .unreadable _ => none

end Scan

namespace Token.Lexer

/-- Whatever is pending, the end token is not read from any text. -/
theorem kind_ne_of_read {pending rest : List Char} {c : Char} {kind : Token.Kind}
    (hverdict : (read pending c rest).verdict = .token kind) : kind ≠ .endOfFile := by
  have hwords : ∀ kind ∈ Kind.ident :: Kind.keywords.map (·.2), kind ≠ .endOfFile := by decide
  have hsymbols : ∀ {text kind}, symbolVerdict text = .token kind → kind ≠ .endOfFile :=
    fun hverdict => (lexeme_of_symbolVerdict hverdict).kind_ne
  revert hverdict
  unfold read
  split
  · rintro ⟨⟩
    decide
  split
  · intro hverdict
    obtain ⟨_, rfl, -⟩ := body_of_readStringBody false rest hverdict
    decide
  split
  · rintro ⟨⟩
    decide
  split
  · rintro ⟨⟩
    exact hwords _ (kind_ofWord_mem _)
  · unfold readSymbol
    split <;> exact hsymbols

end Token.Lexer

namespace Scanner

/-- The scanner after some steps. -/
def after (scanner : Scanner) : Nat → Scanner
  | 0 => scanner
  | steps + 1 => (scanner.after steps).next.2

/-! ## One step -/

/-- A step passes over a gap and reads the text behind it, which is empty only at the end. -/
structure Reads (scanner : Scanner) (gap text : List Char) : Prop where
  whole : scanner.rest = gap ++ (text ++ scanner.next.2.rest)
  start_eq : scanner.next.1.start? = some (scanner.place.advance gap)
  place_eq : scanner.next.2.place = scanner.place.advance (gap ++ text)
  isEnd_iff : scanner.next.1.isEnd = true ↔ text = []
  rest_eq : text = [] → scanner.next.2.rest = []
  unbroken : scanner.next.2.breakage = none

/-- At the end of the text a step finds the end token. -/
theorem reads_of_gap {scanner : Scanner} (hunbroken : scanner.breakage = none)
    (hafter : (splitGap false scanner.rest).2 = []) :
    Reads scanner (splitGap false scanner.rest).1 [] := by
  have hsplit := splitGap_append false scanner.rest
  have hnext : scanner.next =
      (.token (makeToken .endOfFile scanner.pending ⟨scanner.skipGap.place, scanner.skipGap.place⟩),
        { scanner.skipGap with pending := [] }) := by
    simp only [next, nextHere, skipGap, hafter, finish, hunbroken]
  rw [hafter] at hsplit
  constructor
  case whole =>
    rw [hnext, List.nil_append]
    exact hsplit.symm.trans (congrArg _ hafter.symm)
  case start_eq =>
    rw [hnext, Scan.start?, Token.span_makeToken]
    rfl
  case place_eq =>
    rw [hnext, List.append_nil]
    rfl
  case isEnd_iff =>
    rw [hnext, Scan.isEnd, Token.kind_makeToken]
    decide
  case rest_eq =>
    rw [hnext]
    exact fun _ => hafter
  case unbroken =>
    rw [hnext]
    exact hunbroken

/-- Taking a piece of text starts where the scanner stands and reads the piece. -/
theorem take_reads (scanner : Scanner) (piece : Piece) :
    (scanner.take piece).1.start? = some scanner.place ∧
      (scanner.take piece).2.rest = piece.rest ∧
      (scanner.take piece).2.place = scanner.place.advance piece.text ∧
      (scanner.take piece).2.breakage = scanner.breakage := by
  unfold take
  cases piece.verdict with
  | mistake error => exact ⟨rfl, rfl, rfl, rfl⟩
  | token kind => exact ⟨by rw [Scan.start?, Token.span_makeToken], rfl, rfl, rfl⟩

theorem isEnd_take_read (scanner : Scanner) (c : Char) (rest : List Char) :
    (scanner.take (read scanner.pending c rest)).1.isEnd = false := by
  unfold take
  cases hverdict : (read scanner.pending c rest).verdict with
  | mistake error => rfl
  | token kind => simpa [Scan.isEnd, Token.kind_makeToken] using kind_ne_of_read hverdict

/-- In front of the end a step reads a piece of text. -/
theorem reads_of_piece {scanner : Scanner} {c : Char} {rest : List Char}
    (hunbroken : scanner.breakage = none) (hafter : (splitGap false scanner.rest).2 = c :: rest) :
    Reads scanner (splitGap false scanner.rest).1 (read scanner.pending c rest).text := by
  have hsplit := splitGap_append false scanner.rest
  have hne := read_text_ne_nil scanner.pending c rest
  have hnext : scanner.next = scanner.skipGap.take (read scanner.pending c rest) := by
    simp only [next, nextHere, skipGap, hafter, settle, hunbroken]
  obtain ⟨hstart, hrest, hplace, hbreakage⟩ :=
    scanner.skipGap.take_reads (read scanner.pending c rest)
  constructor
  case whole => rw [hnext, hrest, read_append, ← hafter, hsplit]
  case start_eq =>
    rw [hnext, hstart]
    rfl
  case place_eq =>
    rw [hnext, hplace, Position.advance_append]
    rfl
  case isEnd_iff =>
    -- Skipping the gap leaves the pending text alone, so this is the piece that was read.
    rw [hnext]
    have hnone := scanner.skipGap.isEnd_take_read c rest
    exact iff_of_false (Bool.eq_false_iff.1 hnone) hne
  case rest_eq => exact fun hnil => absurd hnil hne
  case unbroken =>
    rw [hnext, hbreakage]
    exact hunbroken

/-- Every step of a scanner reads on, as long as the text does not break off. -/
theorem exists_reads {scanner : Scanner} (hunbroken : scanner.breakage = none) :
    ∃ gap text, Reads scanner gap text := by
  cases hafter : (splitGap false scanner.rest).2 with
  | nil => exact ⟨_, _, reads_of_gap hunbroken hafter⟩
  | cons c rest => exact ⟨_, _, reads_of_piece hunbroken hafter⟩

namespace Reads

variable {scanner : Scanner} {gap text : List Char}

/-- A step that does not find the end reads some of the text. -/
theorem consumes (hreads : Reads scanner gap text) (hend : scanner.next.1.isEnd = false) :
    gap ++ text ≠ [] := by
  intro hnil
  have htext : text = [] := (List.append_eq_nil_iff.1 hnil).2
  rw [hreads.isEnd_iff.2 htext] at hend
  cases hend

theorem length_rest_le (hreads : Reads scanner gap text) :
    scanner.next.2.rest.length ≤ scanner.rest.length - 1 := by
  cases hend : scanner.next.1.isEnd with
  | true => rw [hreads.rest_eq (hreads.isEnd_iff.1 hend)]; exact Nat.zero_le _
  | false =>
      have hpos := List.length_pos_iff.2 (hreads.consumes hend)
      have hwhole := congrArg List.length hreads.whole
      simp only [List.length_append] at hpos hwhole
      omega

theorem isEnd_of_rest (hreads : Reads scanner gap text) (hrest : scanner.rest = []) :
    scanner.next.1.isEnd = true := by
  have hwhole := hreads.whole
  rw [hrest, eq_comm, List.append_eq_nil_iff, List.append_eq_nil_iff] at hwhole
  exact hreads.isEnd_iff.2 hwhole.2.1

/-- What a step finds starts between the places where the scanner stands before and after it. -/
theorem start_between (hreads : Reads scanner gap text) :
    ∃ start, scanner.next.1.start? = some start ∧ scanner.place ≤ start ∧
      start ≤ scanner.next.2.place := by
  refine ⟨_, hreads.start_eq, scanner.place.le_advance gap, ?_⟩
  rw [hreads.place_eq, Position.advance_append]
  exact Position.le_advance _ text

end Reads

/-! ## All steps -/

section Steps

variable {scanner : Scanner}

theorem unbroken_after (hunbroken : scanner.breakage = none) (steps : Nat) :
    (scanner.after steps).breakage = none := by
  induction steps with
  | zero => exact hunbroken
  | succ steps ih =>
      obtain ⟨gap, text, hreads⟩ := exists_reads ih
      exact hreads.unbroken

theorem exists_reads_after (hunbroken : scanner.breakage = none) (steps : Nat) :
    ∃ gap text, Reads (scanner.after steps) gap text :=
  exists_reads (unbroken_after hunbroken steps)

/-- Each step takes at least one character of what is left, until nothing is left. -/
theorem length_rest_after (hunbroken : scanner.breakage = none) (steps : Nat) :
    (scanner.after steps).rest.length ≤ scanner.rest.length - steps := by
  induction steps with
  | zero => exact Nat.le_refl _
  | succ steps ih =>
      obtain ⟨gap, text, hreads⟩ := exists_reads_after hunbroken steps
      have hstep := hreads.length_rest_le
      rw [after]
      omega

theorem place_after_mono (hunbroken : scanner.breakage = none) :
    Monotone fun steps => (scanner.after steps).place := by
  refine monotone_nat_of_le_succ fun steps => ?_
  obtain ⟨gap, text, hreads⟩ := exists_reads_after hunbroken steps
  obtain ⟨start, -, hfrom, hstop⟩ := hreads.start_between
  exact hfrom.trans hstop

/-- What a later step finds starts behind or where an earlier one found something. -/
theorem exists_start_le (hunbroken : scanner.breakage = none) {earlier later : Nat}
    (hle : earlier ≤ later) :
    ∃ start start', (scanner.after earlier).next.1.start? = some start ∧
      (scanner.after later).next.1.start? = some start' ∧ start ≤ start' := by
  obtain ⟨_, _, hearlier⟩ := exists_reads_after hunbroken earlier
  obtain ⟨_, _, hlater⟩ := exists_reads_after hunbroken later
  obtain ⟨start, hstart, -, hstop⟩ := hearlier.start_between
  obtain ⟨start', hstart', hfrom, -⟩ := hlater.start_between
  refine ⟨start, start', hstart, hstart', ?_⟩
  rcases Nat.eq_or_lt_of_le hle with rfl | hlt
  · rw [Option.some.inj (hstart.symm.trans hstart')]
  · have hplace : (scanner.after (earlier + 1)).place ≤ (scanner.after later).place :=
      place_after_mono hunbroken hlt
    exact (hstop.trans hplace).trans hfrom

/-- As many steps as there are characters lead to the end. -/
theorem rest_after_eq_nil (hunbroken : scanner.breakage = none) {steps : Nat}
    (hsteps : scanner.rest.length ≤ steps) : (scanner.after steps).rest = [] := by
  have hlength := length_rest_after hunbroken steps
  exact List.length_eq_zero_iff.1 (by omega)

end Steps

/-- A scanner in front of a source text. -/
def ofBytes (bytes : List UInt8) : Scanner := { rest := Text.Utf8.decode bytes }

/-- A scanner always makes progress. However often it was asked for more of a source text, also
after mistakes, a step that does not find the end token reads at least one character. Where no
character is left a step finds the end token, and where it finds the end token no character is left
behind it. So after as many steps as there are characters, every step finds the end token. All that
the steps find starts somewhere, and never in front of what earlier steps have found. -/
theorem next_progresses (bytes : List UInt8) :
    (∀ steps, ((ofBytes bytes).after steps).next.1.isEnd = false →
      ∃ front, front ≠ [] ∧
        ((ofBytes bytes).after steps).rest = front ++ ((ofBytes bytes).after (steps + 1)).rest) ∧
    (∀ steps, ((ofBytes bytes).after steps).rest = [] →
      ((ofBytes bytes).after steps).next.1.isEnd = true) ∧
    (∀ steps, ((ofBytes bytes).after steps).next.1.isEnd = true →
      ((ofBytes bytes).after (steps + 1)).rest = []) ∧
    (∀ steps, (Text.Utf8.decode bytes).length ≤ steps →
      ((ofBytes bytes).after steps).next.1.isEnd = true) ∧
    ∀ earlier later, earlier ≤ later → ∃ start start',
      ((ofBytes bytes).after earlier).next.1.start? = some start ∧
      ((ofBytes bytes).after later).next.1.start? = some start' ∧ start ≤ start' := by
  have hreads : ∀ steps, ∃ gap text, Reads ((ofBytes bytes).after steps) gap text :=
    exists_reads_after rfl
  have hrest : ∀ steps, ((ofBytes bytes).after steps).rest = [] →
      ((ofBytes bytes).after steps).next.1.isEnd = true := by
    intro steps hrest
    obtain ⟨gap, text, hreads⟩ := hreads steps
    exact hreads.isEnd_of_rest hrest
  refine ⟨fun steps hend => ?_, hrest, fun steps hend => ?_, fun steps hsteps => ?_,
    fun earlier later hle => exists_start_le rfl hle⟩
  · obtain ⟨gap, text, hreads⟩ := hreads steps
    refine ⟨gap ++ text, hreads.consumes hend, ?_⟩
    rw [List.append_assoc]
    exact hreads.whole
  · obtain ⟨gap, text, hreads⟩ := hreads steps
    exact hreads.rest_eq (hreads.isEnd_iff.1 hend)
  · exact hrest steps (rest_after_eq_nil rfl hsteps)

/-- Half a symbol, a string that ends in half an escape, and a comment that ends with the text. -/
def mistakenBytes : List UInt8 := [0x26, 0x22, 0x61, 0x5C, 0x0A, 0x2F, 0x2F]

theorem next_progresses_mistaken :
    (((ofBytes mistakenBytes).after 1).next.1.isEnd = false ∧
      ∃ front, front ≠ [] ∧ ((ofBytes mistakenBytes).after 1).rest =
        front ++ ((ofBytes mistakenBytes).after 2).rest) ∧
    (((ofBytes mistakenBytes).after 2).next.1.isEnd = true ∧
      ((ofBytes mistakenBytes).after 3).rest = [] ∧
      ((ofBytes mistakenBytes).after 3).next.1.isEnd = true) ∧
    ((Text.Utf8.decode mistakenBytes).length ≤ 7 ∧
      ((ofBytes mistakenBytes).after 7).next.1.isEnd = true) ∧
    ∃ start start', ((ofBytes mistakenBytes).after 1).next.1.start? = some start ∧
      ((ofBytes mistakenBytes).after 2).next.1.start? = some start' ∧ start ≤ start' := by
  obtain ⟨hconsumes, hend, hrest, hlast, hstart⟩ := next_progresses mistakenBytes
  have hmistake : ((ofBytes mistakenBytes).after 1).next.1.isEnd = false := by decide +kernel
  have hfound : ((ofBytes mistakenBytes).after 2).next.1.isEnd = true := by decide +kernel
  have hlength : (Text.Utf8.decode mistakenBytes).length ≤ 7 := by decide +kernel
  exact ⟨⟨hmistake, hconsumes 1 hmistake⟩, ⟨hfound, hrest 2 hfound, hend 3 (hrest 2 hfound)⟩,
    ⟨hlength, hlast 7 hlength⟩, hstart 1 2 (by decide)⟩

end Scanner

end Shanty
