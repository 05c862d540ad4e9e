/-
# Spelling out tokens

How a token looks is its kind and its text; where it stands does not matter. A text spells some
words if it is cut into tokens that look like them, whatever comes after it, as long as that does not
run into its last word. Texts can be put together from smaller ones in this way, blanks included.

Conversely the tokens of a text are spelled properly: their texts are lexemes of their kinds, and
no integer among them is too large.
-/

import Shanty.Proofs.Token.Cutting
import Shanty.Proofs.Text.Number

namespace Shanty

namespace Text

/-- Digits are added up as they are in the standard library. -/
theorem decimalValue_eq (digits : List Char) : decimalValue digits = Nat.ofDigitChars 10 digits 0 := by
  unfold decimalValue Nat.ofDigitChars
  congr 1
  funext value c
  rw [Nat.mul_comm]
  rfl

theorem decimalValue_toDigits (number : Nat) : decimalValue (Nat.toDigits 10 number) = number := by
  rw [decimalValue_eq, Nat.ofDigitChars_ten_toDigits]

theorem isDigit_of_mem_toDigits (number : Nat) {c : Char} (hmem : c ∈ Nat.toDigits 10 number) :
    isDigit c = true := by
  have hdigit := isDigit_of_mem number hmem
  simpa [isDigit, Char.isDigit, Char.le_def] using hdigit

end Text

namespace Token

open Token.Lexer
open Text (isDigit decimalValue)

/-- How a token looks. -/
abbrev Word := Token.Kind × String

/-- How a token looks, wherever it stands. -/
def look (token : Token) : Word := (token.kind, token.text)

/-! ## Tokens of a text -/

/-- A token with a text that spells it. -/
structure Proper (token : Token) : Prop where
  isLexeme : Lexeme token.kind token.text.toList
  small : token.kind = .intLiteral → decimalValue token.text.toList ≤ maxInt

theorem Proper.kind_ne {token : Token} (hproper : token.Proper) : token.kind ≠ .endOfFile :=
  hproper.isLexeme.kind_ne

theorem proper_makeToken {kind : Kind} {text : List Char} (hlexeme : Lexeme kind text)
    (span : Span) : (makeToken kind text span).Proper := by
  rw [makeToken_eq hlexeme]
  split
  next hlarge =>
    have hdigits : "2147483647".toList ≠ [] ∧ ∀ d ∈ "2147483647".toList, isDigit d = true :=
      ⟨by decide, List.all_eq_true.1 (by decide)⟩
    have hvalue : decimalValue "2147483647".toList ≤ maxInt := by decide
    rw [hlarge.1]
    exact ⟨.number hdigits.1 hdigits.2, fun _ => hvalue⟩
  next hsmall =>
    refine ⟨?_, ?_⟩
    · rwa [String.toList_ofList]
    · intro hkind
      rw [String.toList_ofList]
      exact Nat.le_of_not_lt fun hlt => hsmall ⟨hkind, hlt⟩

/-- The tokens of a text are proper up to the end token. -/
theorem Cuts.proper {place : Position} {text : List Char} {tokens : List Token}
    (hcuts : Cuts place text tokens) :
    ∃ body last, tokens = body ++ [last] ∧ last.kind = .endOfFile ∧ ∀ token ∈ body, token.Proper := by
  induction hcuts with
  | done => exact ⟨[], _, rfl, rfl, by simp⟩
  | next hfirst _ ih =>
      obtain ⟨body, last, rfl, hlast, hbody⟩ := ih
      exact ⟨_ :: body, last, rfl, hlast,
        List.forall_mem_cons.2 ⟨proper_makeToken hfirst.isLexeme _, hbody⟩⟩

/-! ## What is read in one piece -/

theorem startsNoGap_cons {c : Char} (hblank : isBlank c = false) (hslash : c ≠ '/')
    (rest : List Char) : StartsNoGap (c :: rest) := by
  refine ⟨?_, ?_⟩
  · rintro _ ⟨⟩
    exact hblank
  · rintro ⟨more, hsame⟩
    cases hsame
    exact hslash rfl

/-- No blank and no slash goes on with a word. -/
theorem startsNoGap_of_continuesWord {c : Char} (hword : continuesWord c = true)
    (rest : List Char) : StartsNoGap (c :: rest) := by
  have hall : [' ', '\t', '\n', '\r', '\x0b', '\x0c', '/'].all (!continuesWord ·) = true := by
    decide
  have hmem : c ∉ [' ', '\t', '\n', '\r', '\x0b', '\x0c', '/'] := by
    intro hmem
    have hother := List.all_eq_true.1 hall c hmem
    rw [hword] at hother
    cases hother
  simp only [List.mem_cons, List.not_mem_nil, or_false, not_or] at hmem
  refine startsNoGap_cons ?_ (by simp [hmem]) rest
  simp [isBlank, hmem]

/-- A run of characters ends where the next one is of another class. -/
theorem takeWhile_append {p : Char → Bool} {run rest : List Char} (hrun : ∀ c ∈ run, p c = true)
    (hrest : ∀ c ∈ rest.head?, p c = false) : (run ++ rest).takeWhile p = run := by
  rw [List.takeWhile_append_of_pos hrun]
  cases rest with
  | nil => simp
  | cons c rest => simp [hrest c rfl]

/-! ## Texts that spell words -/

/-- A text is cut into tokens that look like some words, if what comes next does not run into it. -/
def Spells (fits : List Char → Prop) (text : List Char) (words : List Word) : Prop :=
  ∀ place rest tokens, fits rest → Cuts (place.advance text) rest tokens →
    ∃ front, front.map look = words ∧ (∀ token ∈ front, token.clamped = false) ∧
      Cuts place (text ++ rest) (front ++ tokens)

/-- Anything may come next. -/
def Anything (_ : List Char) : Prop := True

/-- What comes next does not go on with a word or a number. -/
def Boundary (rest : List Char) : Prop := ∀ c ∈ rest.head?, continuesWord c = false

theorem Boundary.cons {c : Char} (hc : continuesWord c = false) (rest : List Char) :
    Boundary (c :: rest) := by
  rintro _ ⟨⟩
  exact hc

namespace Spells

variable {fits fits' : List Char → Prop} {text text' : List Char} {words words' : List Word}

theorem nil : Spells fits [] [] := fun _ _ _ _ hcuts => ⟨[], rfl, by simp, hcuts⟩

theorem append (hfirst : Spells fits text words) (hsecond : Spells fits' text' words')
    (hfits : ∀ rest, fits' rest → fits (text' ++ rest)) :
    Spells fits' (text ++ text') (words ++ words') := by
  intro place rest tokens hrest hcuts
  rw [Position.advance_append] at hcuts
  obtain ⟨back, rfl, hback, hcuts⟩ := hsecond _ _ _ hrest hcuts
  obtain ⟨front, rfl, hfront, hcuts⟩ := hfirst _ _ _ (hfits rest hrest) hcuts
  refine ⟨front ++ back, List.map_append, ?_, ?_⟩
  · intro token hmem
    rcases List.mem_append.1 hmem with hmem | hmem
    · exact hfront token hmem
    · exact hback token hmem
  · rwa [List.append_assoc, List.append_assoc]

/-- Whatever fits behind a text that anything may follow. -/
theorem free (hspells : Spells Anything text words) : Spells fits text words :=
  fun place rest tokens _ hcuts => hspells place rest tokens trivial hcuts

/-- A blank spells nothing. -/
theorem blank (c : Char) (hblank : isBlank c = true) : Spells Anything [c] [] := by
  intro place rest tokens _ hcuts
  refine ⟨[], rfl, by simp, ?_⟩
  rw [Position.advance_cons, Position.advance_nil] at hcuts
  generalize hplace : place.step c = place' at hcuts
  cases hcuts with
  | done hgap =>
      subst hplace
      exact .done (.blank hblank hgap)
  | next hfirst hcuts =>
      subst hplace
      have hlonger := hfirst.isGap.blank hblank
      exact .next ⟨by rw [hfirst.whole]; rfl, hlonger, hfirst.starts, hfirst.isLexeme,
        hfirst.isLongest⟩ hcuts

/-- A lexeme that is read in one piece, and that is no gap, spells a word. -/
theorem lexeme {kind : Kind} {c : Char} {more : List Char} (hlexeme : Lexeme kind (c :: more))
    (hsmall : kind = .intLiteral → decimalValue (c :: more) ≤ maxInt)
    (hstarts : ∀ rest, fits rest → StartsNoGap (c :: (more ++ rest)))
    (hread : ∀ rest, fits rest → (read [] c (more ++ rest)).text = c :: more) :
    Spells fits (c :: more) [(kind, String.ofList (c :: more))] := by
  intro place rest tokens hrest hcuts
  have hnotlarge : ¬ (kind = .intLiteral ∧ maxInt < decimalValue (c :: more)) :=
    fun hlarge => absurd (hsmall hlarge.1) (Nat.not_le_of_lt hlarge.2)
  have hlongest : Longest (c :: more) (c :: more ++ rest) := by
    have hlongest : Longest (read [] c (more ++ rest)).text (c :: (more ++ rest)) := longest_of_read
    rwa [hread rest hrest] at hlongest
  refine ⟨[⟨kind, String.ofList (c :: more), ⟨place, place.advance (c :: more)⟩, false⟩], rfl,
    by simp, ?_⟩
  have hnext := @Cuts.next place _ [] (c :: more) rest kind tokens
    ⟨rfl, .nil, hstarts rest hrest, hlexeme, hlongest⟩ hcuts
  rwa [makeToken_eq hlexeme, if_neg hnotlarge] at hnext

/-- A word or a number must not be followed by more letters or digits. -/
theorem word {c : Char} {more : List Char} (hstarts : startsWord c = true)
    (hmore : ∀ d ∈ more, continuesWord d = true) :
    Spells Boundary (c :: more) [(Kind.ofWord (c :: more), String.ofList (c :: more))] := by
  refine lexeme (.word hstarts hmore) ?_ ?_ ?_
  · intro hkind
    have hall : .intLiteral ∉ Kind.ident :: Kind.keywords.map (·.2) := by decide
    exact absurd (hkind ▸ kind_ofWord_mem (c :: more)) hall
  · intro rest _
    exact startsNoGap_of_continuesWord (by rw [continuesWord, hstarts, Bool.true_or]) _
  · intro rest hrest
    rw [read_word hstarts]
    exact congrArg (c :: ·) (takeWhile_append hmore hrest)

theorem ident {name : String} (hlexeme : Lexeme .ident name.toList) :
    Spells Boundary name.toList [(.ident, name)] := by
  obtain ⟨c, more, htext, hstarts, hmore, hkind⟩ := hlexeme.parts.1 rfl
  have hword := word hstarts hmore
  rwa [← htext, hkind, String.ofList_toList] at hword

theorem number {value : Nat} (hsmall : value ≤ maxInt) :
    Spells Boundary (toString value).toList [(.intLiteral, toString value)] := by
  have hdigits : (toString value).toList = Nat.toDigits 10 value := Nat.toList_repr
  have hall : ∀ d ∈ (toString value).toList, isDigit d = true := by
    rw [hdigits]
    exact fun d hmem => Text.isDigit_of_mem_toDigits value hmem
  have hvalue : decimalValue (toString value).toList ≤ maxInt := by
    rwa [hdigits, Text.decimalValue_toDigits]
  have hname : String.ofList (toString value).toList = toString value := String.ofList_toList
  cases htext : (toString value).toList with
  | nil => exact absurd (hdigits.symm.trans htext) Nat.toDigits_ne_nil
  | cons c more =>
      rw [htext] at hall hvalue hname
      rw [← hname]
      refine lexeme (.number (List.cons_ne_nil _ _) hall) (fun _ => hvalue) ?_ ?_
      · intro rest _
        refine startsNoGap_of_continuesWord ?_ _
        rw [continuesWord, hall c (.head _), Bool.or_true]
      · intro rest hrest
        rw [read_digit (hall c (.head _))]
        refine congrArg (c :: ·) (takeWhile_append (fun d hd => hall d (.tail _ hd)) ?_)
        intro d hd
        exact (Bool.or_eq_false_iff.1 (hrest d hd)).2

theorem string {text : String} (hlexeme : Lexeme .stringLiteral text.toList) :
    Spells Anything text.toList [(.stringLiteral, text)] := by
  obtain ⟨body, hbody, htext⟩ := hlexeme.parts.2.2 rfl
  have hspells : Spells Anything ('"' :: (body ++ ['"']))
      [(.stringLiteral, String.ofList ('"' :: (body ++ ['"'])))] := by
    refine lexeme (.string hbody) nofun ?_ ?_
    · intro rest _
      exact startsNoGap_cons (by decide) (by decide) _
    · intro rest _
      simp [Lexer.read, readStringBody_of_body hbody, Piece.after]
  rwa [← htext, String.ofList_toList] at hspells

/-- A symbol must not be followed by what makes it a longer symbol. -/
theorem symbol {kind : Kind} {c : Char} {more : List Char}
    (hsymbol : Kind.ofSymbol? (c :: more) = some kind)
    (hfits : ∀ rest, fits rest → ∀ d ∈ rest.head?, Kind.ofSymbol? (c :: (more ++ [d])) = none) :
    Spells fits (c :: more) [(kind, String.ofList (c :: more))] := by
  refine lexeme (.symbol hsymbol) ?_ ?_ ?_
  · intro hkind
    have hall : ∀ entry ∈ Kind.symbols, entry.2 ≠ .intLiteral := by decide
    exact absurd hkind (hall _ (mem_of_lookup hsymbol))
  · intro rest _
    have hall : ∀ entry ∈ Kind.symbols, entry.1.head?.all (!isBlank ·) = true := by decide
    have hblank : isBlank c = false := by simpa using hall _ (mem_of_lookup hsymbol)
    exact startsNoGap_cons hblank (head_of_symbol hsymbol).1 _
  · intro rest hrest
    rw [read_symbol hsymbol]
    refine congrArg (c :: ·) ?_
    rcases length_of_symbol hsymbol with hlength | hlength
    · obtain rfl := List.length_eq_zero_iff.1 (Nat.succ.inj hlength)
      cases rest with
      | nil => rfl
      | cons d rest =>
          have hnone : Kind.ofSymbol? [c, d] = none := hfits _ hrest d rfl
          rw [List.nil_append, growSymbol_cons, hnone]
          rfl
    · obtain ⟨d, rfl⟩ := List.length_eq_one_iff.1 (Nat.succ.inj hlength)
      rw [List.singleton_append, growSymbol_cons, hsymbol]
      rfl

/-- A slash must not be followed by another one. -/
theorem slash : Spells (fun rest => ∀ c ∈ rest.head?, c ≠ '/') ['/'] [(.slash, "/")] := by
  refine lexeme .slash nofun ?_ ?_
  · intro rest hrest
    refine ⟨?_, ?_⟩
    · rintro _ ⟨⟩
      decide
    · rintro ⟨more, hsame⟩
      cases rest with
      | nil => cases hsame
      | cons c rest =>
          cases hsame
          exact hrest '/' rfl rfl
  · intro rest _
    rfl

/-- A text that ends with a word is followed by one that starts with something else. -/
theorem join (hfirst : Spells Boundary text words) (hsecond : Spells fits text' words') {c : Char}
    {more : List Char} (htext : text' = c :: more) (hc : continuesWord c = false) :
    Spells fits (text ++ text') (words ++ words') := by
  refine hfirst.append hsecond ?_
  intro rest _
  rw [htext]
  exact .cons hc _

/-- A text that anything may follow is followed by another one. -/
theorem seq (hfirst : Spells Anything text words) (hsecond : Spells fits text' words') :
    Spells fits (text ++ text') (words ++ words') := hfirst.append hsecond fun _ _ => trivial

/-- Punctuation is a symbol that is never part of a longer one. -/
theorem punctuation (c : Char) (kind : Kind) (hsymbol : Kind.ofSymbol? [c] = some kind)
    (hmem : c ∈ ['(', ')', '[', ']', '\x7b', '\x7d', ',', ';']) :
    Spells Anything [c] [(kind, String.ofList [c])] := by
  refine symbol hsymbol ?_
  intro _ _ d _
  have hall : ∀ entry ∈ Kind.symbols,
      entry.1.head?.any (['(', ')', '[', ']', '\x7b', '\x7d', ',', ';'].contains ·) = true →
        entry.1.length = 1 := by
    decide
  cases hlonger : Kind.ofSymbol? [c, d] with
  | none => exact hlonger
  | some kind' => cases hall _ (mem_of_lookup hlonger) (List.contains_iff_mem.2 hmem)

/-- All keywords are words. -/
theorem keyword (text : List Char) (kind : Kind) (hkind : Kind.keywords.lookup text = some kind) :
    Spells Boundary text [(kind, String.ofList text)] := by
  have hall : ∀ entry ∈ Kind.keywords, entry.1 ≠ [] ∧
      entry.1.head?.all startsWord = true ∧ entry.1.all continuesWord = true := by
    decide
  obtain ⟨hne, hstarts, hmore⟩ := hall _ (mem_of_lookup hkind)
  cases text with
  | nil => exact absurd rfl hne
  | cons c more =>
      have hword := word hstarts fun d hd => List.all_eq_true.1 hmore d (.tail _ hd)
      rwa [Kind.ofWord, hkind, Option.getD_some] at hword

/-- A symbol with blanks around it. -/
theorem spaced (c : Char) (more : List Char) (kind : Kind)
    (hsymbol : Kind.ofSymbol? (c :: more) = some kind)
    (hspace : Kind.ofSymbol? (c :: (more ++ [' '])) = none) :
    Spells Anything (' ' :: (c :: more ++ [' '])) [(kind, String.ofList (c :: more))] := by
  have hblank : isBlank ' ' = true := by decide
  have hbehind : Spells (fun rest => ∀ d ∈ rest.head?, d = ' ') (c :: more)
      [(kind, String.ofList (c :: more))] := by
    refine symbol hsymbol ?_
    intro rest hrest d hd
    rw [hrest d hd]
    exact hspace
  refine (blank ' ' hblank).seq (hbehind.append (blank ' ' hblank) ?_)
  rintro _ _ _ ⟨⟩
  rfl

end Spells

end Token

end Shanty
