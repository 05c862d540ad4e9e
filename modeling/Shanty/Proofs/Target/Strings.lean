/-
# String literals are decoded alike everywhere

What a string stands for is settled when its token is read: the text between its quotes, with four
escapes replaced. Code keeps literals as they are written, and a module of LLVM decodes them once
more. Both readings agree on all strings that the code of an accepted program can have, so the
module holds what was meant, and its emission never comes upon a string that it cannot decode.
-/

import Shanty.Proofs.Acceptance.Leaves
import Shanty.Proofs.Code.Accepted
import Shanty.Proofs.Code.Meaning
import Shanty.Proofs.Code.Strings
import Shanty.Proofs.Target.Llvm.Module
import Shanty.Proofs.Token.Strings

namespace Shanty

open Code (stringLabel)
open Text.Literal (decode? unescape)

/-- A literal with the text of a string is a token of the source. -/
theorem Tree.exists_token_of_literal {tokens : List Token} {parts : List Tree.Expr}
    (hliterals : Tree.literalsOf parts = tokens.filterMap Token.literal?) {node : Tree.Node}
    {text : String} (hpart : .string node text ∈ parts) :
    ∃ token ∈ tokens, token.kind = .stringLiteral ∧ token.text = text := by
  have hmem : Literal.string node.span text ∈ Tree.literalsOf parts :=
    List.mem_filterMap.2 ⟨_, hpart, rfl⟩
  rw [hliterals] at hmem
  obtain ⟨token, htoken, hliteral⟩ := List.mem_filterMap.1 hmem
  unfold Token.literal? at hliteral
  split at hliteral
  next => cases hliteral
  next hkind =>
    obtain ⟨_, htext⟩ := Literal.string.inj (Option.some.inj hliteral)
    exact ⟨token, htoken, hkind, htext⟩
  next => cases hliteral

namespace Target

/-- A module holds each string of its program as it is decoded, with a zero behind it. -/
theorem Llvm.Module.ofProgram_strings {program : Code.Program} :
    Ensures (Llvm.Module.ofProgram program) fun module =>
      ∀ index text, program.strings[index]? = some text → ∃ bytes, decode? text = some bytes ∧
        (stringLabel index, .text (bytes ++ [0])) ∈ module.globals := by
  have hcontent : ∀ text ∈ program.strings, Ensures (Llvm.stringContent text) fun content =>
      ∃ bytes, decode? text = some bytes ∧ content = .text (bytes ++ [0]) := by
    intro text _
    unfold Llvm.stringContent
    split
    next bytes hbytes => exact .ok ⟨bytes, hbytes, rfl⟩
    next => exact .error
  refine (Ensures.mapM hcontent).bind fun contents hcontents => ?_
  refine (Ensures.trivially _).bind fun _ _ => (Ensures.trivially _).bind fun _ _ => .pure ?_
  intro index text htext
  obtain ⟨hlt, rfl⟩ := List.getElem?_eq_some_iff.1 htext
  obtain ⟨hlength, hall⟩ := List.forall₂_iff_get.1 hcontents
  obtain ⟨bytes, hbytes, heq⟩ := hall index hlt (hlength ▸ hlt)
  refine ⟨bytes, hbytes, List.mem_append_left _ (List.mem_mapIdx.2 ⟨index, hlength ▸ hlt, ?_⟩)⟩
  exact congrArg (stringLabel index, ·) heq

/-- Every string token in front of the first mistake is a text between quotes in which no line ends,
every backslash starts one of four escapes and every quote belongs to one of them, and it is
decoded to this text with the escapes replaced. If the source is accepted, the strings of its code,
as it is and optimized, are such tokens, and its module of LLVM exists and holds exactly what they
are decoded to. -/
theorem strings_decode_alike (bytes : List UInt8) :
    (∀ token ∈ (TokenStream.ofText (Text.Utf8.decode bytes)).tokens, token.kind = .stringLiteral →
      ∃ body, token.Quotes body) ∧
    ∀ (tree : Tree.Program) (state : Resolution.State) (resolved : Resolution.Resolved Tree.Program)
      (checked : Typing.Checked Tree.Program),
      (Tree.parse (.ofText (Text.Utf8.decode bytes))).program = some tree →
      resolve {} tree = .ok (state, resolved) → resolved.ok = true →
      check resolved.tree = .ok checked → checked.messages = [] →
      ∃ code, Code.lower checked.tree = .ok code ∧ ∀ program ∈ [code, code.optimize],
        ∃ module, Llvm.Module.ofProgram program = .ok module ∧
          ∀ index text, program.strings[index]? = some text →
            ∃ token ∈ (TokenStream.ofText (Text.Utf8.decode bytes)).tokens, ∃ body,
              token.kind = .stringLiteral ∧ token.text = text ∧ token.Quotes body ∧
              (stringLabel index, .text (Text.Utf8.encode (unescape body) ++ [0])) ∈
                module.globals := by
  refine ⟨fun token hmem hkind => TokenStream.exists_quotes_of_mem hmem hkind, ?_⟩
  intro tree state resolved checked hparse hresolve hok hcheck hmessages
  obtain ⟨code, hlower, hall⟩ := Code.exists_lower_shaped hparse hresolve hok hcheck hmessages
  have hliterals := Acceptance.literalsOf_accepted hparse Registry.coherent_empty hresolve hok hcheck
  refine ⟨code, hlower, fun program hprogram => ?_⟩
  obtain ⟨module, hmodule, _⟩ := Llvm.Module.ofProgram_yields (hall program hprogram).1
  refine ⟨module, hmodule, fun index text htext => ?_⟩
  have hstrings : program.strings = code.strings := by
    simp only [List.mem_cons, List.not_mem_nil, or_false] at hprogram
    rcases hprogram with rfl | rfl <;> rfl
  obtain ⟨node, hpart⟩ :=
    Code.strings_of_lower hlower text (hstrings ▸ List.mem_of_getElem? htext)
  obtain ⟨token, hmem, hkind, rfl⟩ := Tree.exists_token_of_literal hliterals hpart
  obtain ⟨body, hquotes⟩ := TokenStream.exists_quotes_of_mem hmem hkind
  obtain ⟨decoded, hdecoded, hglobal⟩ :=
    Llvm.Module.ofProgram_strings module hmodule index token.text htext
  obtain rfl : _ = decoded := Option.some.inj (hquotes.decode_eq.symm.trans hdecoded)
  exact ⟨token, hmem, body, hkind, rfl, hquotes, hglobal⟩

/-- A run of backslashes, an escaped quote at the end of a string, an empty string and a string with
a tab and a letter of two bytes in it. -/
def quotedText : String :=
  "string s; void show(string t) \x7b report t; \x7d " ++
  "void main() \x7b s = \"\\\\\\\\\"; show(\"say \\\"\"); report \"\"; report \"\té\\t\\n\"; \x7d"

/-- Two backslashes between quotes, and then a byte that is no character. -/
def brokenBytes : List UInt8 := [0x22, 0x5C, 0x5C, 0x22, 0x20, 0xFF]

/-- The string in front of a mistake can be decoded. The program with the other strings is accepted,
so its module holds what they stand for. -/
theorem strings_decode_alike_quoted :
    ((TokenStream.ofText (Text.Utf8.decode brokenBytes)).failure.isSome = true ∧
      ∃ token ∈ (TokenStream.ofText (Text.Utf8.decode brokenBytes)).tokens,
        token.kind = .stringLiteral ∧ ∃ body, token.Quotes body) ∧
    ∃ tree code, Code.accepted? quotedText = some tree ∧ Code.lower tree = .ok code ∧
      ∀ program ∈ [code, code.optimize],
        ∃ module, Llvm.Module.ofProgram program = .ok module ∧
          ∀ index text, program.strings[index]? = some text →
            ∃ token ∈ (TokenStream.ofText
                (Text.Utf8.decode (Text.Utf8.encode quotedText.toList))).tokens, ∃ body,
              token.kind = .stringLiteral ∧ token.text = text ∧ token.Quotes body ∧
              (stringLabel index, .text (Text.Utf8.encode (unescape body) ++ [0])) ∈
                module.globals := by
  have hbroken : (TokenStream.ofText (Text.Utf8.decode brokenBytes)).failure.isSome = true := by
    decide +kernel
  have hmem : (⟨.stringLiteral, "\"\\\\\"", ⟨⟨0, 0⟩, ⟨0, 4⟩⟩, false⟩ : Token) ∈
      (TokenStream.ofText (Text.Utf8.decode brokenBytes)).tokens := by
    decide +kernel
  refine ⟨⟨hbroken, _, hmem, rfl, (strings_decode_alike brokenBytes).1 _ hmem rfl⟩, ?_⟩
  have hsome : (Code.accepted? quotedText).isSome = true := by
    unfold Code.accepted? quotedText
    repeat rewrite [String.toList_append]
    repeat rewrite [String.toList_ofList]
    decide +kernel
  obtain ⟨program, haccepted⟩ := Option.isSome_iff_exists.1 hsome
  obtain ⟨tree, state, resolved, checked, hparse, hresolve, hok, hcheck, hmessages, rfl⟩ :=
    Code.exists_of_accepted? haccepted
  rw [← Text.Utf8.decode_encode quotedText.toList] at hparse
  obtain ⟨code, hlower, hmodules⟩ := (strings_decode_alike _).2 tree state resolved checked hparse
    hresolve hok hcheck hmessages
  exact ⟨checked.tree, code, haccepted, hlower, hmodules⟩

end Target

end Shanty
