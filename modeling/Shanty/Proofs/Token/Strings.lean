/-
# What string tokens stand for

The scanner decides by itself what a string is, and literals are decoded elsewhere, by rules that
know more ways to write one. Each string token is one of the literals that can be decoded, also where
the text has a mistake further on. What it stands for is what it says between its quotes, with four
escapes replaced.
-/

import Shanty.Proofs.Tree.Literals

namespace Shanty

open Token.Lexer (Lexeme StringBody isEscape)

namespace Text.Literal

/-- What is meant by the text between two quotes. -/
def unescape : List Char → List Char
  | [] => []
  | '\\' :: 'n' :: rest => '\n' :: unescape rest
  | '\\' :: 't' :: rest => '\t' :: unescape rest
  | '\\' :: '"' :: rest => '"' :: unescape rest
  | '\\' :: '\\' :: rest => '\\' :: unescape rest
  | c :: rest => c :: unescape rest

theorem unescape_plain {c : Char} (hbackslash : c ≠ '\\') (rest : List Char) :
    unescape (c :: rest) = c :: unescape rest := by
  rw [unescape.eq_6] <;> exact fun _ hsame => absurd hsame hbackslash

/-- An escape is read as the one character that it stands for. -/
theorem exists_unescape_escape {c : Char} (hescape : isEscape c = true) (rest : List Char) :
    ∃ d, unescape ('\\' :: c :: rest) = d :: unescape rest ∧
      unit? '"' ('\\' :: c :: rest) = some (Utf8.encode [d], 2) := by
  have hcases : c = 'n' ∨ c = 't' ∨ c = '"' ∨ c = '\\' := by
    simpa [isEscape, or_assoc] using hescape
  rcases hcases with rfl | rfl | rfl | rfl
  · exact ⟨'\n', rfl, rfl⟩
  · exact ⟨'\t', rfl, rfl⟩
  · exact ⟨'"', rfl, rfl⟩
  · exact ⟨'\\', rfl, rfl⟩

/-- The characters between the quotes of a string are read as what is meant by them. -/
theorem body?_of_stringBody {body : List Char} (hbody : StringBody body) :
    body? body = some (Utf8.encode (unescape body)) := by
  induction hbody with
  | nil => simp [body?, unescape, Utf8.encode]
  | @plain c rest hquote hbackslash hnewline _ ih =>
      rw [body?]
      simp [unit?_plain hquote hbackslash hnewline, ih, unescape_plain hbackslash, Utf8.encode]
  | @escape c rest hescape _ ih =>
      obtain ⟨d, hunescape, hunit⟩ := exists_unescape_escape hescape rest
      rw [body?]
      simp [hunit, hunescape, ih, Utf8.encode]

/-- A string literal is decoded to what is meant by the text between its quotes. -/
theorem decode?_of_stringBody {text : String} {body : List Char}
    (htext : text.toList = '"' :: (body ++ ['"'])) (hbody : StringBody body) :
    decode? text = some (Utf8.encode (unescape body)) := by
  simp [decode?, htext, body?_of_stringBody hbody]

end Text.Literal

namespace Token

/-- The text between the quotes of a string stays on its line. -/
theorem Lexer.StringBody.newline_not_mem {body : List Char} (hbody : StringBody body) :
    '\n' ∉ body := by
  induction hbody with
  | nil => exact List.not_mem_nil
  | plain _ _ hnewline _ ih => simpa [Ne.symm hnewline] using ih
  | @escape c _ hescape _ ih =>
      have hc : '\n' ≠ c := by
        rintro rfl
        cases hescape
      simpa [hc] using ih

/-- A token is a string literal as it is written: two quotes with a text between them that is
decoded to what is meant by it. -/
structure Quotes (token : Token) (body : List Char) : Prop where
  text_eq : token.text.toList = '"' :: (body ++ ['"'])
  isBody : StringBody body
  oneLine : '\n' ∉ body
  decode_eq : Text.Literal.decode? token.text = some (Text.Utf8.encode (Text.Literal.unescape body))

end Token

namespace TokenStream

open Token Token.Lexer Scanner

/-- The tokens in front of the first mistake are made of lexemes, apart from the end token. -/
theorem exists_lexeme_of_mem {place : Position} {text : List Char} {token : Token}
    (hmem : token ∈ (fromPlace place text).tokens) (hkind : token.kind ≠ .endOfFile) :
    ∃ lexeme span, Lexeme token.kind lexeme ∧ token = makeToken token.kind lexeme span := by
  induction place, text using text_induction with
  | gap place gap hgap =>
      rw [fromPlace_of_gap hgap] at hmem
      obtain rfl := List.mem_singleton.1 hmem
      exact absurd rfl hkind
  | first place text gap kind lexeme after hfirst ih =>
      rw [fromPlace_of_first hfirst] at hmem
      rcases List.mem_cons.1 hmem with rfl | hmem
      · rw [kind_makeToken]
        exact ⟨lexeme, _, hfirst.isLexeme, rfl⟩
      · exact ih hmem
  | mistake place text error span hmistake =>
      rw [fromPlace, scanAll, hmistake] at hmem
      cases hmem

/-- Every string token in front of the first mistake is a literal that can be decoded. -/
theorem exists_quotes_of_mem {text : List Char} {token : Token} (hmem : token ∈ (ofText text).tokens)
    (hkind : token.kind = .stringLiteral) : ∃ body, token.Quotes body := by
  have hend : token.kind ≠ .endOfFile := by
    rw [hkind]
    decide
  obtain ⟨lexeme, span, hlexeme, htoken⟩ := @exists_lexeme_of_mem .origin _ _ hmem hend
  obtain ⟨body, hbody, hbounds⟩ := hlexeme.parts.2.2 hkind
  have htext : token.text.toList = '"' :: (body ++ ['"']) := by
    rw [makeToken_eq hlexeme, if_neg (by simp [hkind])] at htoken
    rw [htoken, ← hbounds]
    exact String.toList_ofList
  exact ⟨body, htext, hbody, hbody.newline_not_mem, Text.Literal.decode?_of_stringBody htext hbody⟩

end TokenStream

end Shanty
