/-
# Lexemes and gaps

What a source text is made of, said without the scanner. A lexeme is a word, a run of digits, a
string or a symbol. A gap is a stretch of blanks and of comments, each up to the end of its line;
only the end of the text can cut a comment short.

The scanner reads exactly these. From a place outside all gaps it reads the longest lexeme that
starts there, and reports a mistake only where none does. In front of it, it passes over the
longest gap.
-/

import Shanty.Token.Lexer

namespace Shanty.Token.Lexer

open Text (isLetter isDigit)

/-- What can stand between the quotes of a string: anything but a quote, a backslash and the end
of the line, and the four escapes. -/
inductive StringBody : List Char → Prop
  | nil : StringBody []
  | plain {c : Char} {rest : List Char} :
      c ≠ '"' → c ≠ '\\' → c ≠ '\n' → StringBody rest → StringBody (c :: rest)
  | escape {c : Char} {rest : List Char} :
      isEscape c = true → StringBody rest → StringBody ('\\' :: c :: rest)

/-- The texts of tokens of a kind. -/
inductive Lexeme : Kind → List Char → Prop
  | word {c : Char} {rest : List Char} :
      startsWord c = true → (∀ d ∈ rest, continuesWord d = true) →
      Lexeme (Kind.ofWord (c :: rest)) (c :: rest)
  | number {digits : List Char} :
      digits ≠ [] → (∀ d ∈ digits, isDigit d = true) → Lexeme .intLiteral digits
  | string {body : List Char} : StringBody body → Lexeme .stringLiteral ('"' :: (body ++ ['"']))
  | symbol {kind : Kind} {text : List Char} :
      Kind.ofSymbol? text = some kind → Lexeme kind text
  | slash : Lexeme .slash ['/']

/-- A lexeme at the front of a text such that no longer one stands there. -/
def Longest (lexeme text : List Char) : Prop :=
  lexeme <+: text ∧ ∀ kind other, Lexeme kind other → other <+: text → other.length ≤ lexeme.length

/-- A stretch of blanks and comments. The last comment may lack the end of its line if the gap
reaches the end of the text. -/
inductive Gap : (atEnd : Bool) → List Char → Prop
  | nil {atEnd : Bool} : Gap atEnd []
  | blank {atEnd : Bool} {c : Char} {rest : List Char} :
      isBlank c = true → Gap atEnd rest → Gap atEnd (c :: rest)
  | comment {atEnd : Bool} {body rest : List Char} :
      '\n' ∉ body → Gap atEnd rest → Gap atEnd ('/' :: '/' :: (body ++ '\n' :: rest))
  | unended {body : List Char} : '\n' ∉ body → Gap true ('/' :: '/' :: body)

/-- Neither a blank nor a comment stands at the front of a text. -/
def StartsNoGap (text : List Char) : Prop :=
  (∀ c ∈ text.head?, isBlank c = false) ∧ ¬ ['/', '/'] <+: text

/-! ## Characters -/

theorem startsWord_of_isDigit {c : Char} (hdigit : isDigit c = true) : startsWord c = false := by
  have hrange : 48 ≤ c.toNat ∧ c.toNat ≤ 57 := by
    simpa [isDigit, Char.le_def, UInt32.le_iff_toNat_le] using hdigit
  have hne : c ≠ '_' := by
    rintro rfl
    revert hrange
    decide
  have halpha : c.isAlpha = false := by
    have hupper : ¬ (c.val ≥ 'A'.val ∧ c.val ≤ 'Z'.val) := by
      rintro ⟨hle, _⟩
      have hle : 65 ≤ c.toNat := UInt32.le_iff_toNat_le.1 hle
      omega
    have hlower : ¬ c.val ≥ 'a'.val := by
      intro hle
      have hle : 97 ≤ c.toNat := UInt32.le_iff_toNat_le.1 hle
      omega
    exact Bool.or_eq_false_iff.2
      ⟨decide_eq_false hupper, Bool.and_eq_false_iff.2 (.inl (decide_eq_false hlower))⟩
  have hascii : ¬ 128 ≤ c.toNat := by omega
  simp [startsWord, isLetter, hne, halpha, hascii]

/-- What is found in a table is one of its entries. -/
theorem mem_of_lookup {table : List (List Char × Kind)} {text : List Char} {kind : Kind}
    (hlookup : table.lookup text = some kind) : (text, kind) ∈ table := by
  obtain ⟨front, back, rfl, _⟩ := List.lookup_eq_some_iff.1 hlookup
  exact List.mem_append_right front (.head _)

/-- The first character of a symbol starts nothing else. -/
theorem head_of_symbol {c : Char} {rest : List Char} {kind : Kind}
    (hsymbol : Kind.ofSymbol? (c :: rest) = some kind) :
    c ≠ '/' ∧ c ≠ '"' ∧ isDigit c = false ∧ startsWord c = false := by
  have hall : ∀ entry ∈ Kind.symbols, entry.1.head?.all fun c =>
      c ≠ '/' && c ≠ '"' && !isDigit c && !startsWord c := by
    decide
  simpa [and_assoc] using hall _ (mem_of_lookup hsymbol)

theorem length_of_symbol {text : List Char} {kind : Kind}
    (hsymbol : Kind.ofSymbol? text = some kind) : text.length = 1 ∨ text.length = 2 := by
  have hall : ∀ entry ∈ Kind.symbols, entry.1.length = 1 ∨ entry.1.length = 2 := by decide
  exact hall _ (mem_of_lookup hsymbol)

/-- No symbol has more than two characters. -/
theorem eq_nil_of_symbol {c d : Char} {more : List Char} {kind : Kind}
    (hsymbol : Kind.ofSymbol? (c :: d :: more) = some kind) : more = [] := by
  rcases length_of_symbol hsymbol with hlength | hlength
  · cases hlength
  · exact List.length_eq_zero_iff.1 (by simpa using hlength)

/-- The first character of a symbol is a symbol or half of one. -/
theorem starts_of_symbol {c : Char} {rest : List Char} {kind : Kind}
    (hsymbol : Kind.ofSymbol? (c :: rest) = some kind) :
    ((Kind.ofSymbol? [c]).isSome || Kind.startsSymbol [c]) = true := by
  have hall : ∀ entry ∈ Kind.symbols,
      ((Kind.ofSymbol? (entry.1.take 1)).isSome || Kind.startsSymbol (entry.1.take 1)) = true := by
    decide
  exact hall _ (mem_of_lookup hsymbol)

/-- A word is a keyword or an identifier. -/
theorem kind_ofWord_mem (word : List Char) :
    Kind.ofWord word ∈ Kind.ident :: Kind.keywords.map (·.2) := by
  unfold Kind.ofWord
  cases hlookup : Kind.keywords.lookup word with
  | none => exact .head _
  | some kind => exact .tail _ (List.mem_map.2 ⟨_, mem_of_lookup hlookup, rfl⟩)

/-- The end of a text is no lexeme. -/
theorem Lexeme.kind_ne {kind : Kind} {text : List Char} (hlexeme : Lexeme kind text) :
    kind ≠ .endOfFile := by
  cases hlexeme with
  | @word c rest =>
      have hall : ∀ kind ∈ Kind.ident :: Kind.keywords.map (·.2), kind ≠ .endOfFile := by decide
      exact hall _ (kind_ofWord_mem (c :: rest))
  | symbol hsymbol =>
      have hall : ∀ entry ∈ Kind.symbols, entry.2 ≠ .endOfFile := by decide
      exact hall _ (mem_of_lookup hsymbol)
  | _ => decide

/-- What an identifier, an integer or a string is made of. -/
theorem Lexeme.parts {kind : Kind} {text : List Char} (hlexeme : Lexeme kind text) :
    (kind = .ident → ∃ c rest, text = c :: rest ∧ startsWord c = true ∧
      (∀ d ∈ rest, continuesWord d = true) ∧ Kind.ofWord text = .ident) ∧
    (kind = .intLiteral → ∀ d ∈ text, isDigit d = true) ∧
    (kind = .stringLiteral → ∃ body, StringBody body ∧ text = '"' :: (body ++ ['"'])) := by
  cases hlexeme with
  | @word c rest hstarts hrest =>
      have hall : ∀ kind ∈ Kind.ident :: Kind.keywords.map (·.2),
          kind ≠ .intLiteral ∧ kind ≠ .stringLiteral := by
        decide
      obtain ⟨hint, hstring⟩ := hall _ (kind_ofWord_mem (c :: rest))
      exact ⟨fun hkind => ⟨c, rest, rfl, hstarts, hrest, hkind⟩, fun hkind => absurd hkind hint,
        fun hkind => absurd hkind hstring⟩
  | symbol hsymbol =>
      have hall : ∀ entry ∈ Kind.symbols,
          entry.2 ≠ .ident ∧ entry.2 ≠ .intLiteral ∧ entry.2 ≠ .stringLiteral := by
        decide
      obtain ⟨hident, hint, hstring⟩ := hall _ (mem_of_lookup hsymbol)
      exact ⟨fun hkind => absurd hkind hident, fun hkind => absurd hkind hint,
        fun hkind => absurd hkind hstring⟩
  | number _ hdigits => exact ⟨nofun, fun _ => hdigits, nofun⟩
  | string hbody => exact ⟨nofun, nofun, fun _ => ⟨_, hbody, rfl⟩⟩
  | slash => exact ⟨nofun, nofun, nofun⟩

theorem Lexeme.ne_nil {kind : Kind} {text : List Char} (hlexeme : Lexeme kind text) :
    text ≠ [] := by
  cases hlexeme with
  | number hne _ => exact hne
  | symbol hsymbol =>
      rintro rfl
      cases hsymbol
  | _ => exact List.cons_ne_nil _ _

/-! ## Reading a lexeme -/

/-- A symbol that has been extended by one character is not extended any further. -/
theorem growSymbol_cons (c d : Char) (rest : List Char) :
    growSymbol [c] (d :: rest) =
      if (Kind.ofSymbol? [c, d]).isSome then ([d], rest) else ([], d :: rest) := by
  have hshort : ∀ e, (Kind.ofSymbol? [c, d, e]).isSome = false := by
    intro e
    cases hsymbol : Kind.ofSymbol? [c, d, e] with
    | none => rfl
    | some kind => rcases length_of_symbol hsymbol with hlength | hlength <;> cases hlength
  have hstop : growSymbol [c, d] rest = ([], rest) := by
    cases rest with
    | nil => rfl
    | cons e rest => simp [growSymbol, hshort]
  simp [growSymbol, hstop]

/-- Where a symbol stands, growing its first character leads to a symbol that includes it. -/
theorem symbol_of_growSymbol {c : Char} {more rest : List Char} {kind : Kind}
    (hsymbol : Kind.ofSymbol? (c :: more) = some kind) (hmore : more <+: rest) :
    ∃ kind', Kind.ofSymbol? (c :: (growSymbol [c] rest).1) = some kind' ∧
      more <+: (growSymbol [c] rest).1 := by
  cases rest with
  | nil =>
      obtain rfl := List.prefix_nil.1 hmore
      exact ⟨kind, hsymbol, List.prefix_refl _⟩
  | cons d rest =>
      rw [growSymbol_cons]
      cases hlonger : Kind.ofSymbol? [c, d] with
      | some kind' =>
          refine ⟨kind', hlonger, ?_⟩
          cases more with
          | nil => exact List.nil_prefix
          | cons e more =>
              obtain ⟨rfl, -⟩ := List.cons_prefix_cons.1 hmore
              rw [eq_nil_of_symbol hsymbol]
              exact List.prefix_refl _
      | none =>
          cases more with
          | nil => exact ⟨kind, hsymbol, List.prefix_refl _⟩
          | cons e more =>
              obtain ⟨rfl, -⟩ := List.cons_prefix_cons.1 hmore
              rw [eq_nil_of_symbol hsymbol, hlonger] at hsymbol
              cases hsymbol

section Branches

variable {c : Char} {rest : List Char}

theorem read_digit (hdigit : isDigit c = true) : read [] c rest = readNumber c rest := by
  have hslash : c ≠ '/' := by
    rintro rfl
    revert hdigit
    decide
  have hquote : c ≠ '"' := by
    rintro rfl
    revert hdigit
    decide
  simp [read, hslash, hquote, hdigit]

theorem read_word (hword : startsWord c = true) : read [] c rest = readWord [] c rest := by
  have hslash : c ≠ '/' := by
    rintro rfl
    revert hword
    decide
  have hquote : c ≠ '"' := by
    rintro rfl
    revert hword
    decide
  have hdigit : isDigit c = false := by
    cases hdigit : isDigit c with
    | false => rfl
    | true => rw [startsWord_of_isDigit hdigit] at hword; cases hword
  simp [read, hslash, hquote, hdigit, hword]

theorem read_symbol {kind : Kind} {more : List Char}
    (hsymbol : Kind.ofSymbol? (c :: more) = some kind) :
    read [] c rest = ⟨c :: (growSymbol [c] rest).1, (growSymbol [c] rest).2,
      symbolVerdict (c :: (growSymbol [c] rest).1), (growSymbol [c] rest).2.isEmpty⟩ := by
  obtain ⟨hslash, hquote, hdigit, hword⟩ := head_of_symbol hsymbol
  simp [read, hslash, hquote, hdigit, hword, readSymbol, starts_of_symbol hsymbol]

end Branches

/-- A string is read up to its closing quote. -/
theorem readStringBody_of_body {body : List Char} (hbody : StringBody body) (rest : List Char) :
    readStringBody false (body ++ '"' :: rest) =
      ⟨body ++ ['"'], rest, .token .stringLiteral, false⟩ := by
  induction hbody with
  | nil => rfl
  | @plain c body hquote hbackslash hnewline _ ih =>
      rw [List.cons_append, readStringBody.eq_7 _ _ _ hquote hnewline]
      · rw [ih]
        rfl
      · intro hsame
        exact absurd hsame hbackslash
      · intro _ hsame
        exact absurd hsame hbackslash
      · intro _ _ hsame
        exact absurd hsame hbackslash
  | @escape c body hescape _ ih =>
      have hnewline : c ≠ '\n' := by
        rintro rfl
        revert hescape
        decide
      rw [List.cons_append, List.cons_append, readStringBody.eq_6 _ _ _ hnewline, hescape]
      simp [ih, Piece.after]

/-- What is read as a string is one. -/
theorem body_of_readStringBody (badEscape : Bool) (text : List Char) {kind : Kind}
    (hverdict : (readStringBody badEscape text).verdict = .token kind) :
    badEscape = false ∧ kind = .stringLiteral ∧
      ∃ body, StringBody body ∧ (readStringBody badEscape text).text = body ++ ['"'] := by
  fun_induction readStringBody badEscape text with
  | case1 => cases hverdict
  | case2 badEscape rest =>
      cases badEscape with
      | true => cases hverdict
      | false =>
          cases hverdict
          exact ⟨rfl, rfl, [], .nil, rfl⟩
  | case3 => cases hverdict
  | case4 => cases hverdict
  | case5 => cases hverdict
  | case6 badEscape c rest hnewline ih =>
      obtain ⟨hbad, hkind, body, hbody, htext⟩ := ih hverdict
      have hboth : badEscape = false ∧ isEscape c = true := by simpa using hbad
      exact ⟨hboth.1, hkind, '\\' :: c :: body, .escape hboth.2 hbody, by simp [Piece.after, htext]⟩
  | case7 badEscape c rest hquote hnewline hlone _ hescape ih =>
      have hbackslash : c ≠ '\\' := by
        intro hsame
        cases rest with
        | nil => exact hlone hsame rfl
        | cons d rest => exact hescape d rest hsame rfl
      obtain ⟨hbad, hkind, body, hbody, htext⟩ := ih hverdict
      exact ⟨hbad, hkind, c :: body, .plain hquote hbackslash hnewline hbody,
        by simp [Piece.after, htext]⟩

/-- Characters of a class at the front of a text are among the longest such run. -/
theorem prefix_takeWhile {p : Char → Bool} {front text : List Char} (hfront : front <+: text)
    (hall : ∀ c ∈ front, p c = true) : front <+: text.takeWhile p := by
  obtain ⟨rest, rfl⟩ := hfront
  rw [List.takeWhile_append_of_pos hall]
  exact List.prefix_append _ _

/-- Where a lexeme stands, the scanner reads a token that includes it, and the token is of the
same kind if it is the lexeme. -/
theorem Lexeme.read {kind : Kind} {text : List Char} (hlexeme : Lexeme kind text) {c : Char}
    {rest : List Char} (hfront : text <+: c :: rest) :
    ∃ kind', (Lexer.read [] c rest).verdict = .token kind' ∧ text <+: (Lexer.read [] c rest).text ∧
      (text = (Lexer.read [] c rest).text → kind = kind') := by
  cases hlexeme with
  | @word first more hfirst hmore =>
      obtain ⟨rfl, hmore'⟩ := List.cons_prefix_cons.1 hfront
      rw [read_word hfirst]
      refine ⟨_, rfl, List.cons_prefix_cons.2 ⟨rfl, prefix_takeWhile hmore' hmore⟩, ?_⟩
      intro hsame
      rw [hsame]
      rfl
  | number hne hdigits =>
      cases text with
      | nil => exact absurd rfl hne
      | cons first more =>
          obtain ⟨rfl, hmore⟩ := List.cons_prefix_cons.1 hfront
          rw [read_digit (hdigits _ (.head _))]
          exact ⟨_, rfl, List.cons_prefix_cons.2 ⟨rfl, prefix_takeWhile hmore
            fun d hd => hdigits d (.tail _ hd)⟩, fun _ => rfl⟩
  | @string body hbody =>
      obtain ⟨rfl, more, rfl⟩ := List.cons_prefix_cons.1 hfront
      have hread : Lexer.read [] '"' (body ++ ['"'] ++ more) =
          ⟨'"' :: (body ++ ['"']), more, .token .stringLiteral, false⟩ := by
        simp [Lexer.read, readStringBody_of_body hbody, Piece.after]
      rw [hread]
      exact ⟨_, rfl, List.prefix_refl _, fun _ => rfl⟩
  | symbol hsymbol =>
      cases text with
      | nil => cases hsymbol
      | cons first more =>
          obtain ⟨rfl, hmore⟩ := List.cons_prefix_cons.1 hfront
          obtain ⟨kind', hgrown, hwithin⟩ := symbol_of_growSymbol hsymbol hmore
          rw [read_symbol hsymbol]
          refine ⟨kind', by simp only [symbolVerdict, hgrown], List.cons_prefix_cons.2 ⟨rfl, hwithin⟩, ?_⟩
          intro hsame
          rw [hsame, hgrown] at hsymbol
          exact (Option.some.inj hsymbol).symm
  | slash =>
      obtain ⟨rfl, -⟩ := List.cons_prefix_cons.1 hfront
      exact ⟨_, rfl, List.prefix_refl _, fun _ => rfl⟩

theorem lexeme_of_symbolVerdict {text : List Char} {kind : Kind}
    (hverdict : symbolVerdict text = .token kind) : Lexeme kind text := by
  unfold symbolVerdict at hverdict
  split at hverdict
  next hsymbol =>
    cases hverdict
    exact .symbol hsymbol
  next => cases hverdict

/-- What the scanner reads as a token is a lexeme. -/
theorem lexeme_of_read {c : Char} {rest : List Char} {kind : Kind}
    (hverdict : (read [] c rest).verdict = .token kind) : Lexeme kind (read [] c rest).text := by
  revert hverdict
  unfold read
  split
  next hslash =>
    intro hverdict
    cases hverdict
    exact .slash
  split
  next hquote =>
    intro hverdict
    obtain ⟨_, rfl, body, hbody, htext⟩ := body_of_readStringBody false rest hverdict
    simp only [Piece.after, htext]
    exact .string hbody
  split
  next hdigit =>
    intro hverdict
    cases hverdict
    exact .number (List.cons_ne_nil _ _) (List.forall_mem_cons.2
      ⟨hdigit, List.all_eq_true.1 List.all_takeWhile⟩)
  split
  next hword =>
    intro hverdict
    cases hverdict
    exact .word hword (List.all_eq_true.1 List.all_takeWhile)
  next =>
    unfold readSymbol
    split
    · exact lexeme_of_symbolVerdict
    · exact lexeme_of_symbolVerdict

/-- The scanner reads the longest lexeme. -/
theorem longest_of_read {c : Char} {rest : List Char} :
    Longest (read [] c rest).text (c :: rest) := by
  refine ⟨⟨_, read_append [] c rest⟩, ?_⟩
  intro kind other hother hfront
  obtain ⟨_, _, hwithin, _⟩ := hother.read hfront
  exact hwithin.length_le

/-! ## Passing over a gap -/

theorem splitGap_newline (rest : List Char) :
    splitGap true ('\n' :: rest) = ('\n' :: (splitGap false rest).1, (splitGap false rest).2) := by
  simp [splitGap]

/-- A comment goes on with every character but the end of the line, two slashes included. -/
theorem splitGap_comment_cons {c : Char} (hne : c ≠ '\n') (rest : List Char) :
    splitGap true (c :: rest) = (c :: (splitGap true rest).1, (splitGap true rest).2) := by
  induction rest generalizing c with
  | nil => simp [splitGap]
  | cons d rest ih =>
      by_cases hslashes : c = '/' ∧ d = '/'
      · obtain ⟨rfl, rfl⟩ := hslashes
        rw [ih (by decide)]
        rfl
      · rw [splitGap.eq_3 true c (d :: rest)]
        · have hgoes : (c != '\n') = true := bne_iff_ne.2 hne
          simp [hgoes]
        · rintro rest' rfl hsame
          cases hsame
          exact hslashes ⟨rfl, rfl⟩

theorem splitGap_comment {body : List Char} (hbody : '\n' ∉ body) (rest : List Char) :
    splitGap true (body ++ rest) =
      (body ++ (splitGap true rest).1, (splitGap true rest).2) := by
  induction body with
  | nil => rfl
  | cons c body ih =>
      rw [List.mem_cons, not_or] at hbody
      rw [List.cons_append, splitGap_comment_cons (Ne.symm hbody.1), ih hbody.2]
      rfl

theorem splitGap_of_startsNoGap {text : List Char} (hstarts : StartsNoGap text) :
    splitGap false text = ([], text) := by
  cases text with
  | nil => rfl
  | cons c rest =>
      rw [splitGap.eq_3 false c rest]
      · simp [hstarts.1 c rfl]
      · rintro rest' rfl rfl
        exact hstarts.2 (List.prefix_append ['/', '/'] rest')

/-- The scanner passes over a whole gap if nothing more of it follows. -/
theorem splitGap_of_gap {atEnd : Bool} {gap : List Char} (hgap : Gap atEnd gap) {rest : List Char}
    (hend : atEnd = true → rest = []) (hstarts : StartsNoGap rest) :
    splitGap false (gap ++ rest) = (gap, rest) := by
  induction hgap with
  | nil => exact splitGap_of_startsNoGap hstarts
  | @blank _ c gap hblank _ ih =>
      rw [List.cons_append, splitGap.eq_3 false c (gap ++ rest)]
      · simp [hblank, ih hend]
      · rintro rest' rfl
        cases hblank
  | @comment _ body gap hbody _ ih =>
      have hcomment := splitGap_comment hbody ('\n' :: (gap ++ rest))
      rw [splitGap_newline, ih hend] at hcomment
      simp only [List.cons_append, List.append_assoc, splitGap, hcomment]
  | @unended body hbody =>
      obtain rfl := hend rfl
      have hcomment := splitGap_comment hbody []
      simp only [List.append_nil, splitGap] at hcomment ⊢
      rw [hcomment]

/-- What the scanner passes over once it is in a comment. -/
inductive CommentRest : (atEnd : Bool) → List Char → Prop
  | ended {atEnd : Bool} {body gap : List Char} :
      '\n' ∉ body → Gap atEnd gap → CommentRest atEnd (body ++ '\n' :: gap)
  | unended {body : List Char} : '\n' ∉ body → CommentRest true body

theorem CommentRest.cons {atEnd : Bool} {c : Char} {text : List Char} (hne : c ≠ '\n')
    (hrest : CommentRest atEnd text) : CommentRest atEnd (c :: text) := by
  have hcons : ∀ {body : List Char}, '\n' ∉ body → '\n' ∉ c :: body := by
    intro body hbody hmem
    rcases List.mem_cons.1 hmem with hsame | hmem
    · exact hne hsame.symm
    · exact hbody hmem
  cases hrest with
  | ended hbody hgap => exact .ended (hcons hbody) hgap
  | unended hbody => exact .unended (hcons hbody)

theorem CommentRest.gap {atEnd : Bool} {text : List Char} (hrest : CommentRest atEnd text) :
    Gap atEnd ('/' :: '/' :: text) := by
  cases hrest with
  | ended hbody hgap => exact .comment hbody hgap
  | unended hbody => exact .unended hbody

/-- The scanner passes over a gap, and nothing more of it follows. -/
theorem gap_of_splitGap (inComment : Bool) (text : List Char) :
    StartsNoGap (splitGap inComment text).2 ∧
      if inComment then CommentRest (splitGap inComment text).2.isEmpty (splitGap inComment text).1
      else Gap (splitGap inComment text).2.isEmpty (splitGap inComment text).1 := by
  fun_induction splitGap inComment text with
  | case1 inComment =>
      refine ⟨⟨by simp, by simp⟩, ?_⟩
      cases inComment with
      | true => exact .unended (by simp)
      | false => exact .nil
  | case2 inComment rest gap after hsplit ih =>
      rw [hsplit] at ih
      refine ⟨ih.1, ?_⟩
      cases inComment with
      | true => exact (ih.2.cons (by decide)).cons (by decide)
      | false => exact ih.2.gap
  | case3 inComment c rest _ hgoes gap after hsplit ih =>
      rw [hsplit] at ih
      refine ⟨ih.1, ?_⟩
      cases inComment with
      | false => exact .blank hgoes ih.2
      | true =>
          by_cases hnewline : c = '\n'
          · subst hnewline
            exact .ended List.not_mem_nil ih.2
          · have hstays : (true && c != '\n') = true := by simpa using hnewline
            rw [hstays] at ih
            exact ih.2.cons hnewline
  | case4 inComment c rest hslashes hstops =>
      rw [Bool.or_eq_true, not_or, Bool.not_eq_true, Bool.not_eq_true] at hstops
      obtain ⟨rfl, hblank⟩ := hstops
      refine ⟨⟨?_, ?_⟩, .nil⟩
      · rintro c' ⟨⟩
        exact hblank
      · rintro ⟨rest', hsame⟩
        cases hsame
        exact hslashes rest' rfl rfl

end Shanty.Token.Lexer
