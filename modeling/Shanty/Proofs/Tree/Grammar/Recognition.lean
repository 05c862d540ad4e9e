/-
# The parser recognises exactly its grammar

Tokens up to an end token are accepted if and only if they make up a program, and then the parser
builds the tree that the grammar gives them. As the parser answers one tree at most, the grammar is
unambiguous. Tokens that are not accepted are rejected with a message.

What stands behind the first end token does not matter.
-/

import Shanty.Proofs.Tree.Grammar.Completeness
import Shanty.Proofs.Tree.Grammar.Soundness

namespace Shanty.Tree

open Grammar

/-- The first end token of a list is in one place. -/
theorem end_unique {body body' rest rest' : List Token} {last last' : Token}
    (hsame : body ++ last :: rest = body' ++ last' :: rest')
    (hbody : ∀ token ∈ body, token.kind ≠ .endOfFile) (hlast : last.kind = .endOfFile)
    (hbody' : ∀ token ∈ body', token.kind ≠ .endOfFile) (hlast' : last'.kind = .endOfFile) :
    body = body' ∧ last = last' := by
  induction body generalizing body' with
  | nil =>
      cases body' with
      | nil => exact ⟨rfl, (List.cons.inj hsame).1⟩
      | cons token body' =>
          obtain ⟨rfl, _⟩ := List.cons.inj hsame
          exact absurd hlast (hbody' _ (.head _))
  | cons token body ih =>
      cases body' with
      | nil =>
          obtain ⟨rfl, _⟩ := List.cons.inj hsame
          exact absurd hlast' (hbody _ (.head _))
      | cons token' body' =>
          obtain ⟨rfl, hrest⟩ := List.cons.inj hsame
          rw [List.forall_mem_cons] at hbody hbody'
          obtain ⟨rfl, rfl⟩ := ih hrest hbody.2 hbody'.2
          exact ⟨rfl, rfl⟩

/-- Every error but that the tokens have run out is reported. -/
theorem message?_of_ne_exhausted {error : ParseError} (hne : error ≠ .exhausted) :
    ∃ message, error.message? = some message := by
  cases error with
  | unexpected token =>
      by_cases hend : token.kind = .endOfFile
      · exact ⟨_, if_pos hend⟩
      · exact ⟨_, if_neg hend⟩
  | exhausted => exact absurd rfl hne
  | _ => exact ⟨_, rfl⟩

section

variable {body : List Token} {last : Token}

theorem isProgram_of_program {rest : List Token} {program : Program}
    (hbody : ∀ token ∈ body, token.kind ≠ .endOfFile) (hlast : last.kind = .endOfFile)
    (hprogram : Parser.program (body ++ last :: rest) = .ok program) :
    IsProgram (body ++ [last]) program := by
  obtain ⟨body', last', rest', hsame, hbody', hlast', hderives⟩ :=
    (Parser.program_settles _).answers program hprogram
  obtain ⟨rfl, rfl⟩ := end_unique hsame hbody hlast hbody' hlast'
  exact hderives

theorem isProgram_unique {program program' : Program} (hprogram : IsProgram (body ++ [last]) program)
    (hprogram' : IsProgram (body ++ [last]) program') : program = program' := by
  have hsame := (hprogram.yields []).symm.trans (hprogram'.yields [])
  exact Except.ok.inj hsame

/-- The parser accepts the tokens that the grammar derives, with the one tree that it gives them.
It ends on all others with a message. -/
theorem program_ok_iff_isProgram (body : List Token) (last : Token) (rest : List Token)
    (hbody : ∀ token ∈ body, token.kind ≠ .endOfFile) (hlast : last.kind = .endOfFile) :
    (∀ program, Parser.program (body ++ last :: rest) = .ok program ↔
      IsProgram (body ++ [last]) program) ∧
    (∀ program program', IsProgram (body ++ [last]) program →
      IsProgram (body ++ [last]) program' → program = program') ∧
    ((∃ program, Parser.program (body ++ last :: rest) = .ok program) ∨
      ∃ stop message, Parser.program (body ++ last :: rest) = .error stop ∧
        stop.error.message? = some message) := by
  refine ⟨?_, fun _ _ => isProgram_unique, ?_⟩
  · intro program
    exact ⟨isProgram_of_program hbody hlast, fun hprogram => hprogram.yields rest⟩
  · cases houtcome : Parser.program (body ++ last :: rest) with
    | ok program => exact .inl ⟨program, rfl⟩
    | error stop =>
        have hend : Parser.HasEnd (body ++ last :: rest) := ⟨last, by simp, hlast⟩
        obtain ⟨message, hmessage⟩ := message?_of_ne_exhausted
          ((Parser.program_settles _).stops stop houtcome hend)
        exact .inr ⟨stop, message, rfl, hmessage⟩

/-- A token without a place. -/
def loose (kind : Token.Kind) (text : String) : Token := { kind, text, span := ⟨.origin, .origin⟩ }

/-- A function whose body is `(x) = y = 1 - 2 - 3 * -x;`. -/
def assignmentTokens : List Token := [
  loose .void "void", loose .ident "main", loose .leftParen "(", loose .rightParen ")",
  loose .leftBrace "\x7b", loose .leftParen "(", loose .ident "x", loose .rightParen ")",
  loose .assign "=", loose .ident "y", loose .assign "=", loose .intLiteral "1",
  loose .minus "-", loose .intLiteral "2", loose .minus "-", loose .intLiteral "3",
  loose .star "*", loose .minus "-", loose .ident "x", loose .semicolon ";",
  loose .rightBrace "\x7d"]

theorem program_ok_iff_isProgram_assignment :
    (∀ token ∈ assignmentTokens, token.kind ≠ .endOfFile) ∧
      (loose .endOfFile "").kind = .endOfFile ∧
      ∃ program, IsProgram (assignmentTokens ++ [loose .endOfFile ""]) program := by
  have hbody : ∀ token ∈ assignmentTokens, token.kind ≠ .endOfFile := by decide
  have hok : (Parser.program (assignmentTokens ++ [loose .endOfFile ""])).isOk = true := by
    decide +kernel
  refine ⟨hbody, rfl, ?_⟩
  cases houtcome : Parser.program (assignmentTokens ++ [loose .endOfFile ""]) with
  | error stop => rw [houtcome] at hok; cases hok
  | ok program => exact ⟨program, ((program_ok_iff_isProgram assignmentTokens
      (loose .endOfFile "") [] hbody rfl).1 program).1 houtcome⟩

end

end Shanty.Tree
