/-
# Parsing undoes writing

A program that was parsed is written in canonical form, and the text that comes out is parsed again.
No remark is made on it, and the new tree is the old one but for its spans. The way leads through
the words of the canonical form: the text spells them, and the grammar gives the same tree to all
tokens that look like them.

Layout, comments, needless parentheses, leading zeros and integers that are too large do not survive,
but none of them left a trace in the first tree.
-/

import Shanty.Proofs.Text.Utf8
import Shanty.Proofs.Tree.Grammar.Recognition
import Shanty.Proofs.Tree.Rereading

namespace Shanty

open Token Token.Lexer Scanner

namespace TokenStream

/-- Only a text without mistakes has an end token. -/
theorem failure_of_mem_end {place : Position} {text : List Char} {last : Token}
    (hmem : last ∈ (fromPlace place text).tokens) (hlast : last.kind = .endOfFile) :
    (fromPlace place text).failure = none := by
  induction place, text using text_induction with
  | gap place gap hgap => rw [fromPlace_of_gap hgap]
  | first place text gap kind lexeme after hfirst ih =>
      rw [fromPlace_of_first hfirst] at hmem ⊢
      rcases List.mem_cons.1 hmem with rfl | hmem
      · rw [kind_makeToken] at hlast
        exact absurd hlast hfirst.isLexeme.kind_ne
      · exact ih hmem
  | mistake place text error span hmistake =>
      rw [fromPlace, scanAll, hmistake] at hmem
      cases hmem

end TokenStream

namespace Tree

open Grammar

theorem program_of_parse {stream : TokenStream} {program : Program}
    (hparse : (parse stream).program = some program) : Parser.program stream.tokens = .ok program := by
  unfold parse at hparse
  split at hparse
  next found hfound => rw [hfound, Option.some.inj hparse]
  next => split at hparse <;> cases hparse

/-- A text that is parsed is cut into proper tokens, which the grammar gives the tree. -/
theorem cuts_of_parse {text : List Char} {program : Program}
    (hparse : (parse (.ofText text)).program = some program) :
    ∃ body last, Cuts .origin text (body ++ [last]) ∧ last.kind = .endOfFile ∧
      AllProper body ∧ IsProgram (body ++ [last]) program := by
  have hprogram := program_of_parse hparse
  obtain ⟨front, close, back, htokens, _, hclose, _⟩ :=
    (Parser.program_settles _).answers program hprogram
  have hmem : close ∈ (TokenStream.fromPlace .origin text).tokens := by
    have hsame : (TokenStream.fromPlace .origin text).tokens = front ++ close :: back := htokens
    simp [hsame]
  have hcuts := TokenStream.cuts_of_fromPlace (TokenStream.failure_of_mem_end hmem hclose)
  obtain ⟨body, last, hsame, hlast, hproper⟩ := hcuts.proper
  have hstream : (TokenStream.ofText text).tokens = body ++ [last] := hsame
  rw [hsame] at hcuts
  rw [hstream] at hprogram
  exact ⟨body, last, hcuts, hlast, hproper,
    isProgram_of_program (fun token hmem => (hproper token hmem).kind_ne) hlast hprogram⟩

theorem warnings_eq_nil {tokens : List Token} (htokens : ∀ token ∈ tokens, token.clamped = false) :
    TokenStream.warnings tokens = [] := by
  refine List.filterMap_eq_nil_iff.2 ?_
  intro token hmem
  simp [Token.warning?, htokens token hmem]

/-- The text of a tree that can be written is cut into its words. -/
theorem Program.cuts_render {program : Program} (hspelled : ∀ decl ∈ program.decls, decl.Spelled) :
    ∃ body last, Cuts .origin program.render.toList (body ++ [last]) ∧
      body.map look = program.words ∧ last.kind = .endOfFile ∧
      ∀ token ∈ body ++ [last], token.clamped = false := by
  obtain ⟨body, hlook, hbody, hcuts⟩ := Program.spells hspelled .origin [] _ trivial (.done .nil)
  rw [List.append_nil] at hcuts
  refine ⟨body, _, hcuts, hlook, rfl, ?_⟩
  intro token hmem
  rcases List.mem_append.1 hmem with hmem | hmem
  · exact hbody token hmem
  · rw [List.mem_singleton.1 hmem]
    rfl

/-- A program that was parsed is the same, up to its spans, when it is written and parsed again,
and no remark is made. -/
theorem parse_render (bytes : List UInt8) (program : Program)
    (hparse : (parse (.ofText (Text.Utf8.decode bytes))).program = some program) :
    ∃ program', parse (.ofText (Text.Utf8.decode (Text.Utf8.encode program.render.toList))) =
        ⟨some program', []⟩ ∧ program'.spanless = program.spanless := by
  obtain ⟨body, last, _, _, hproper, hprogram⟩ := cuts_of_parse hparse
  have hspelled : ∀ decl ∈ program.decls, decl.Spelled := hprogram.spelled hproper
  obtain ⟨words, close, hcuts, hlook, hclose, hclamped⟩ := Program.cuts_render hspelled
  obtain ⟨program', hsame, hprogram'⟩ := hprogram.rereads hlook hclose
  refine ⟨program', ?_, hsame⟩
  rw [Text.Utf8.decode_encode, TokenStream.ofText_eq_iff_cuts.2 hcuts, parse, hprogram'.yields [],
    warnings_eq_nil hclamped]

/-- Signs one after the other, an assignment in an argument, needless parentheses, an integer with
leading zeros and one that is too large, and a string with an escape and a byte that is no
character. -/
def untidyBytes : List UInt8 :=
  Text.Utf8.encode "void f()\x7b(x)=- -g(y=007,(((9999999999))),\"\\n".toList ++ [0xFF] ++
    Text.Utf8.encode "\");\x7d // the end".toList

theorem parse_render_untidy :
    ∃ program, (parse (.ofText (Text.Utf8.decode untidyBytes))).program = some program ∧
      ∃ program', parse (.ofText (Text.Utf8.decode (Text.Utf8.encode program.render.toList))) =
          ⟨some program', []⟩ ∧ program'.spanless = program.spanless := by
  have hsome : (parse (.ofText (Text.Utf8.decode untidyBytes))).program.isSome = true := by
    decide +kernel
  obtain ⟨program, hparse⟩ := Option.isSome_iff_exists.1 hsome
  exact ⟨program, hparse, parse_render untidyBytes program hparse⟩

end Tree

end Shanty
