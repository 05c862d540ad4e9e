/-
# Lexing loses and duplicates nothing

A source text without lexical mistakes is an alternation of gaps and lexemes, and its tokens are
these lexemes in order. Each token is the longest lexeme where it starts, and its span runs
between the places that are reached by walking over all the text in front of it and over the
lexeme itself.

`Cuts` says this of a text step by step, and the scanner finds the tokens of a text if and only if
it is cut into them. The last section says the same of the text as a whole.
-/

import Shanty.Proofs.Token.Lexeme
import Shanty.Text.Utf8
import Shanty.Token.Stream

namespace Shanty

namespace Token

open Token.Lexer
open Text (isDigit decimalValue)

/-- The token at the end of a text. -/
def finale (place : Position) : Token := ⟨.endOfFile, "", ⟨place, place⟩, false⟩

theorem kind_makeToken (kind : Kind) (text : List Char) (span : Span) :
    (makeToken kind text span).kind = kind := by
  unfold makeToken
  split <;> rfl

theorem span_makeToken (kind : Kind) (text : List Char) (span : Span) :
    (makeToken kind text span).span = span := by
  unfold makeToken
  split <;> rfl

/-- Only an integer beyond the largest one is replaced. -/
theorem makeToken_eq {kind : Kind} {text : List Char} (hlexeme : Lexeme kind text) (span : Span) :
    makeToken kind text span =
      if kind = .intLiteral ∧ maxInt < decimalValue text then ⟨kind, "2147483647", span, true⟩
      else ⟨kind, String.ofList text, span, false⟩ := by
  unfold makeToken
  by_cases hkind : kind = .intLiteral
  · subst hkind
    have hdigits : text.any (!isDigit ·) = false := by
      rw [List.any_eq_false]
      intro c hmem
      rw [hlexeme.parts.2.1 rfl c hmem]
      decide
    have hmax : toString maxInt = "2147483647" := by decide
    simp only [hdigits, hmax, decide_true, Bool.true_and, Bool.false_or, decide_eq_true_eq,
      true_and]
  · simp [hkind]

/-- How a text starts: with a gap, a lexeme that is the longest one there, and what follows. -/
structure First (text gap : List Char) (kind : Kind) (lexeme after : List Char) : Prop where
  whole : text = gap ++ (lexeme ++ after)
  isGap : Gap false gap
  starts : StartsNoGap (lexeme ++ after)
  isLexeme : Lexeme kind lexeme
  isLongest : Longest lexeme (lexeme ++ after)

/-- The tokens that a text is cut into when it stands at a place. -/
inductive Cuts : Position → List Char → List Token → Prop
  | done {place : Position} {gap : List Char} :
      Gap true gap → Cuts place gap [finale (place.advance gap)]
  | next {place : Position} {text gap lexeme after : List Char} {kind : Kind}
      {tokens : List Token} :
      First text gap kind lexeme after →
      Cuts (place.advance (gap ++ lexeme)) after tokens →
      Cuts place text (makeToken kind lexeme
        ⟨place.advance gap, place.advance (gap ++ lexeme)⟩ :: tokens)

end Token

/-! ## One step of the scanner -/

namespace Scanner

open Token Token.Lexer

/-- Behind a gap that reaches the end of the text stands the end token. -/
theorem next_of_gap {gap : List Char} (hgap : Gap true gap) (place : Position) :
    next { rest := gap, place } =
      (.token (finale (place.advance gap)), { rest := [], place := place.advance gap }) := by
  have hsplit : splitGap false gap = (gap, []) := by
    have hstarts : StartsNoGap [] := ⟨by simp, by simp⟩
    have hwhole := splitGap_of_gap hgap (fun _ => rfl) hstarts
    rwa [List.append_nil] at hwhole
  simp only [next, skipGap, hsplit]
  rfl

/-- The scanner reads the first lexeme of a text as a token and goes on behind it. -/
theorem next_of_first {text gap lexeme after : List Char} {kind : Token.Kind}
    (hfirst : First text gap kind lexeme after) (place : Position) :
    next { rest := text, place } =
      (.token (makeToken kind lexeme ⟨place.advance gap, place.advance (gap ++ lexeme)⟩),
        { rest := after, place := place.advance (gap ++ lexeme) }) := by
  obtain ⟨rfl, hgap, hstarts, hlexeme, _, hlongest⟩ := hfirst
  cases lexeme with
  | nil => exact absurd rfl hlexeme.ne_nil
  | cons c more =>
      obtain ⟨kind', hverdict, hwithin, hkind⟩ := hlexeme.read (List.prefix_append _ after)
      have hsame : (read [] c (more ++ after)).text = c :: more := by
        have hother := hlongest kind' _ (lexeme_of_read hverdict) ⟨_, read_append [] c (more ++ after)⟩
        exact (hwithin.eq_of_length_le hother).symm
      obtain rfl := hkind hsame.symm
      have hrest : (read [] c (more ++ after)).rest = after := by
        have := read_append [] c (more ++ after)
        rw [hsame, ← List.cons_append] at this
        exact List.append_cancel_left this
      have hsplit := splitGap_of_gap hgap (by simp) hstarts
      rw [List.cons_append] at hsplit ⊢
      have hverdict' : (read [] c (more ++ after)).verdict = .token kind := hverdict
      simp only [next, skipGap, hsplit, nextHere, settle, take, hverdict', hsame, hrest, tokenText,
        List.nil_append, ite_self, Position.advance_append]

/-- What can stand at the front of a text: nothing but a gap, a first lexeme, or a mistake. -/
theorem next_cases (text : List Char) (place : Position) :
    Gap true text ∨ (∃ gap kind lexeme after, First text gap kind lexeme after) ∨
      ∃ error span, (next { rest := text, place }).1 = .mistake error span := by
  obtain ⟨hstarts, hgap⟩ := gap_of_splitGap false text
  have hwhole := splitGap_append false text
  cases hafter : (splitGap false text).2 with
  | nil =>
      rw [hafter] at hwhole hgap
      rw [List.append_nil] at hwhole
      exact .inl (hwhole ▸ hgap)
  | cons c rest =>
      rw [hafter] at hwhole hgap hstarts
      have hread := read_append [] c rest
      cases hverdict : (read [] c rest).verdict with
      | token kind =>
          refine .inr (.inl ⟨(splitGap false text).1, kind, (read [] c rest).text,
            (read [] c rest).rest, ?_, hgap, ?_, lexeme_of_read hverdict, ?_⟩)
          · rw [hread, hwhole]
          · rwa [hread]
          · rw [hread]
            exact longest_of_read
      | mistake error =>
          have hnext : ∃ span, (next { rest := text, place }).1 = .mistake error span := by
            simp only [next, skipGap, hafter, nextHere, settle, take, hverdict, Scan.mistake.injEq,
              true_and, exists_eq']
          exact .inr (.inr ⟨error, hnext⟩)

end Scanner

/-! ## All steps -/

namespace Scanner

/-- If a step keeps what is known of a scanner, then what it yields holds of all that is scanned. -/
theorem forall_mem_scanAll {known : Scanner → Prop} {post : Scan → Prop}
    (hstep : ∀ scanner, known scanner → known scanner.next.2 ∧ post scanner.next.1)
    (patient : Bool) {scanner : Scanner} (hstart : known scanner) :
    ∀ scan ∈ scanAll patient scanner, post scan := by
  fun_induction scanAll patient scanner with
  | case1 scanner _ => exact List.forall_mem_singleton.2 (hstep scanner hstart).2
  | case2 scanner _ error span hscan ih =>
      obtain ⟨hnext, hpost⟩ := hstep scanner hstart
      rw [hscan] at hpost
      cases patient with
      | true => exact List.forall_mem_cons.2 ⟨hpost, ih hnext⟩
      | false => exact List.forall_mem_singleton.2 hpost
  | case3 scanner _ _ ih =>
      obtain ⟨hnext, hpost⟩ := hstep scanner hstart
      exact List.forall_mem_cons.2 ⟨hpost, ih hnext⟩

end Scanner

namespace TokenStream

open Token Token.Lexer Scanner

/-- The stream with a token in front of it. -/
def cons (token : Token) (stream : TokenStream) : TokenStream :=
  ⟨token :: stream.tokens, stream.failure⟩

/-- The stream of what is still to be scanned. -/
def fromPlace (place : Position) (text : List Char) : TokenStream :=
  ofScans (scanAll false { rest := text, place })

theorem fromPlace_of_gap {gap : List Char} (hgap : Gap true gap) (place : Position) :
    fromPlace place gap = ⟨[finale (place.advance gap)], none⟩ := by
  rw [fromPlace, scanAll, next_of_gap hgap]
  rfl

theorem fromPlace_of_first {text gap lexeme after : List Char} {kind : Kind}
    (hfirst : First text gap kind lexeme after) (place : Position) :
    fromPlace place text =
      cons (makeToken kind lexeme ⟨place.advance gap, place.advance (gap ++ lexeme)⟩)
        (fromPlace (place.advance (gap ++ lexeme)) after) := by
  have hgoes : (Scan.token (makeToken kind lexeme
      ⟨place.advance gap, place.advance (gap ++ lexeme)⟩)).isFinal = false := by
    simpa only [Scan.isFinal, kind_makeToken, decide_eq_false_iff_not]
      using hfirst.isLexeme.kind_ne
  rw [fromPlace, scanAll, next_of_first hfirst]
  simp only [hgoes]
  rfl

theorem failure_of_mistake {text : List Char} {place : Position} {error : LexicalError}
    {span : Span} (hmistake : (next { rest := text, place }).1 = .mistake error span) :
    (fromPlace place text).failure ≠ none := by
  rw [fromPlace, scanAll, hmistake]
  exact Option.some_ne_none _

/-- A text is a gap, or it starts with a lexeme behind which it goes on, or with a mistake. -/
@[elab_as_elim]
theorem text_induction {motive : Position → List Char → Prop}
    (gap : ∀ place gap, Gap true gap → motive place gap)
    (first : ∀ place text gap kind lexeme after, First text gap kind lexeme after →
      motive (place.advance (gap ++ lexeme)) after → motive place text)
    (mistake : ∀ place text error span,
      (next { rest := text, place }).1 = .mistake error span → motive place text)
    (place : Position) (text : List Char) : motive place text := by
  -- The induction is on the length of the text, which every lexeme takes something of.
  induction hlength : text.length using Nat.strongRecOn generalizing place text with
  | ind length ih =>
      rcases next_cases text place with hgap | ⟨gap, kind, lexeme, after, hfirst⟩ |
        ⟨error, span, hmistake⟩
      · exact gap place text hgap
      · have hshorter : after.length < length := by
          have hpos := List.length_pos_iff.2 hfirst.isLexeme.ne_nil
          rw [← hlength, hfirst.whole, List.length_append, List.length_append]
          omega
        exact first place text gap kind lexeme after hfirst (ih after.length hshorter _ after rfl)
      · exact mistake place text error span hmistake

/-- A text that is cut into tokens has these tokens and no mistake. -/
theorem fromPlace_of_cuts {place : Position} {text : List Char} {tokens : List Token}
    (hcuts : Cuts place text tokens) : fromPlace place text = ⟨tokens, none⟩ := by
  induction hcuts with
  | done hgap => exact fromPlace_of_gap hgap _
  | next hfirst _ ih =>
      rw [fromPlace_of_first hfirst, ih]
      rfl

/-- A text without mistakes is cut into its tokens. -/
theorem cuts_of_fromPlace {place : Position} {text : List Char}
    (hfine : (fromPlace place text).failure = none) :
    Cuts place text (fromPlace place text).tokens := by
  induction place, text using text_induction with
  | gap place gap hgap =>
      rw [fromPlace_of_gap hgap]
      exact .done hgap
  | first place text gap kind lexeme after hfirst ih =>
      rw [fromPlace_of_first hfirst] at hfine ⊢
      exact .next hfirst (ih hfine)
  | mistake place text error span hmistake => exact absurd hfine (failure_of_mistake hmistake)

/-- Cutting a text is what the scanner does. -/
theorem ofText_eq_iff_cuts {text : List Char} {tokens : List Token} :
    ofText text = ⟨tokens, none⟩ ↔ Cuts .origin text tokens := by
  constructor
  · intro hstream
    have hsame : fromPlace .origin text = ⟨tokens, none⟩ := hstream
    have hcuts := cuts_of_fromPlace (congrArg failure hsame)
    rwa [hsame] at hcuts
  · exact fromPlace_of_cuts

end TokenStream

/-! ## The text as a whole -/

namespace Token

open Token.Lexer
open Text (isDigit decimalValue)

/-- A token together with the gap in front of it and the text that it was read from. -/
structure Cut where
  gap : List Char
  text : List Char
  token : Token

namespace Cut

/-- The stretch of text that ends with the token. -/
def chars (cut : Cut) : List Char := cut.gap ++ cut.text

/-- The text that the token should have. An integer beyond the largest one counts as the
largest. -/
def value (cut : Cut) : String :=
  if cut.token.kind = .intLiteral ∧ 2147483647 < decimalValue cut.text then "2147483647"
  else String.ofList cut.text

/-- A token fits between the text in front of its gap and the text behind it. -/
structure Fits (before : List Char) (cut : Cut) (after : List Char) : Prop where
  isGap : Gap false cut.gap
  isLexeme : Lexeme cut.token.kind cut.text
  isLongest : Longest cut.text (cut.text ++ after)
  text_eq : cut.token.text = cut.value
  start_eq : cut.token.span.start = Position.origin.advance (before ++ cut.gap)
  stop_eq : cut.token.span.stop = Position.origin.advance (before ++ (cut.gap ++ cut.text))

/-- The token that is made of the first lexeme of a text fits there. -/
theorem fits_of_first {text gap lexeme after : List Char} {kind : Kind}
    (hfirst : First text gap kind lexeme after) (before : List Char) :
    Fits before
      ⟨gap, lexeme, makeToken kind lexeme ⟨(Position.origin.advance before).advance gap,
        (Position.origin.advance before).advance (gap ++ lexeme)⟩⟩ after where
  isGap := hfirst.isGap
  isLexeme := by simpa only [kind_makeToken] using hfirst.isLexeme
  isLongest := hfirst.isLongest
  text_eq := by
    simp only [value, makeToken_eq hfirst.isLexeme]
    split
    next hlarge => exact (if_pos hlarge).symm
    next hsmall => exact (if_neg hsmall).symm
  start_eq := by simp only [span_makeToken, Position.advance_append]
  stop_eq := by simp only [span_makeToken, Position.advance_append]

end Cut

/-- A text behind another one is an alternation of gaps and of texts that tokens are made of. -/
structure Alternation (front text : List Char) (tokens : List Token) (cuts : List Cut)
    (last : List Char) : Prop where
  whole : text = cuts.flatMap Cut.chars ++ last
  isGap : Gap true last
  tokens_eq : tokens = cuts.map Cut.token ++ [finale (Position.origin.advance (front ++ text))]
  fits : ∀ before cut after, cuts = before ++ cut :: after →
    cut.Fits (front ++ before.flatMap Cut.chars) (after.flatMap Cut.chars ++ last)
  made : ∀ cut ∈ cuts, cut.token = makeToken cut.token.kind cut.text cut.token.span

/-- What `Cuts` says about a text behind another one, with the cuts as a list. -/
theorem Cuts.exists_alternation {place : Position} {text : List Char} {tokens : List Token}
    (hcuts : Cuts place text tokens) :
    ∀ front, place = Position.origin.advance front →
      ∃ cuts last, Alternation front text tokens cuts last := by
  induction hcuts with
  | @done place gap hgap =>
      rintro front rfl
      refine ⟨[], gap, rfl, hgap, ?_, ?_, List.forall_mem_nil _⟩
      · rw [Position.advance_append]
        rfl
      · intro before cut after hsplit
        exact absurd hsplit.symm (List.append_ne_nil_of_right_ne_nil _ (List.cons_ne_nil _ _))
  | @next place text gap lexeme after kind tokens hfirst _ ih =>
      rintro front rfl
      obtain ⟨cuts, last, htext, hlast, htokens, hfits, hmade⟩ :=
        ih (front ++ (gap ++ lexeme)) (Position.advance_append _ _ _).symm
      refine ⟨⟨gap, lexeme, makeToken kind lexeme _⟩ :: cuts, last, ?_, hlast,
        congrArg (List.cons _) ?_, ?_, List.forall_mem_cons.2 ⟨?_, hmade⟩⟩
      · rw [hfirst.whole, htext, List.flatMap_cons, List.append_assoc, Cut.chars, List.append_assoc]
      · rw [htokens, hfirst.whole]
        simp only [List.append_assoc]
        rfl
      · intro before cut behind hsplit
        cases before with
        | nil =>
            cases hsplit
            rw [← htext, List.flatMap_nil, List.append_nil]
            exact Cut.fits_of_first hfirst front
        | cons first before =>
            cases hsplit
            have := hfits before cut behind rfl
            rwa [List.append_assoc] at this
      · rw [kind_makeToken, span_makeToken]

theorem Cuts.alternation {place : Position} {text : List Char} {tokens : List Token}
    (hcuts : Cuts place text tokens) :
    ∀ front, place = Position.origin.advance front →
      ∃ (cuts : List Cut) (last : List Char),
        text = cuts.flatMap Cut.chars ++ last ∧ Gap true last ∧
        tokens = cuts.map Cut.token ++ [finale (Position.origin.advance (front ++ text))] ∧
        ∀ before cut after, cuts = before ++ cut :: after →
          cut.Fits (front ++ before.flatMap Cut.chars) (after.flatMap Cut.chars ++ last) := by
  intro front hplace
  obtain ⟨cuts, last, halternation⟩ := hcuts.exists_alternation front hplace
  exact ⟨cuts, last, halternation.whole, halternation.isGap, halternation.tokens_eq,
    halternation.fits⟩

/-- A source that is read without a mistake is an alternation of gaps and of the texts of its
tokens, each the longest lexeme where it starts. The spans of the tokens are the places reached by
walking over the text, and the end token closes the list. -/
theorem ofText_is_alternation (bytes : List UInt8)
    (hfine : (TokenStream.ofText (Text.Utf8.decode bytes)).failure = none) :
    ∃ (cuts : List Cut) (last : List Char),
      Text.Utf8.decode bytes = cuts.flatMap Cut.chars ++ last ∧ Gap true last ∧
      (TokenStream.ofText (Text.Utf8.decode bytes)).tokens = cuts.map Cut.token ++
        [finale (Position.origin.advance (Text.Utf8.decode bytes))] ∧
      ∀ before cut after, cuts = before ++ cut :: after →
        cut.Fits (before.flatMap Cut.chars) (after.flatMap Cut.chars ++ last) := by
  have hcuts : Cuts .origin (Text.Utf8.decode bytes)
      (TokenStream.fromPlace .origin (Text.Utf8.decode bytes)).tokens :=
    TokenStream.cuts_of_fromPlace hfine
  exact hcuts.alternation [] rfl

/-- A tab, a symbol of two characters, an integer that is too large and, in a comment that the
end of the text cuts short, a byte that is no character. -/
def trickyBytes : List UInt8 :=
  [0x09, 0x78, 0x3D, 0x3D, 0x39, 0x39, 0x39, 0x39, 0x39, 0x39, 0x39, 0x39, 0x39, 0x39, 0x2F, 0x2F,
    0xFF]

theorem ofText_is_alternation_tricky :
    (TokenStream.ofText (Text.Utf8.decode trickyBytes)).failure = none ∧
      ∃ (cuts : List Cut) (last : List Char),
        Text.Utf8.decode trickyBytes = cuts.flatMap Cut.chars ++ last ∧ Gap true last ∧
        (TokenStream.ofText (Text.Utf8.decode trickyBytes)).tokens = cuts.map Cut.token ++
          [finale (Position.origin.advance (Text.Utf8.decode trickyBytes))] ∧
        ∀ before cut after, cuts = before ++ cut :: after →
          cut.Fits (before.flatMap Cut.chars) (after.flatMap Cut.chars ++ last) := by
  have hfine : (TokenStream.ofText (Text.Utf8.decode trickyBytes)).failure = none := by
    decide +kernel
  exact ⟨hfine, ofText_is_alternation trickyBytes hfine⟩

end Token

end Shanty
