/-
# Literals stand for something

An integer literal of a parsed program fits into a word, since the scanner cuts off what is too
large, and a string literal stands for a sequence of bytes, since the scanner lets through only four
escapes and all four are known. Code is made from literals as they are written, so this is what
makes it possible to read them again.
-/

import Shanty.Proofs.Text.Number
import Shanty.Proofs.Tree.Marks
import Shanty.Proofs.Tree.RoundTrip
import Shanty.Text.Literal

namespace Shanty

open Token.Lexer (Lexeme StringBody isEscape)

namespace Text

/-- A number that fits into 64 bits is read as it is written. -/
theorem readInt64?_toString {number : Int} (hlow : -0x8000000000000000 ≤ number)
    (hhigh : number < 0x8000000000000000) : readInt64? (toString number) = some number := by
  rw [readInt64?, readInt?_toString, Option.filter_some]
  simp [hlow, hhigh]

/-- A word is read as it is written. -/
theorem readInt64?_toString_word (word : Int64) :
    readInt64? (toString word) = some word.toInt := by
  have hlow := word.le_toInt
  have hhigh := word.toInt_lt
  exact readInt64?_toString (by omega) (by omega)

/-- What an integer literal stands for is read as it is written. -/
theorem readInt64?_of_small {value : Nat} (hsmall : value ≤ Token.maxInt) :
    readInt64? (toString value) = some (value : Int) := by
  have hbound : value ≤ 2147483647 := hsmall
  exact @readInt64?_toString value (by omega) (by omega)

namespace Literal

theorem unit?_plain {c : Char} (hquote : c ≠ '"') (hbackslash : c ≠ '\\') (hnewline : c ≠ '\n')
    (rest : List Char) : unit? '"' (c :: rest) = some (Utf8.encode [c], 1) := by
  rw [unit?.eq_4 _ _ _ (fun _ _ hsame => absurd hsame hbackslash)
    (fun hsame _ => hbackslash hsame)]
  simp [hquote, hnewline]

/-- The four escapes of programs are known. -/
theorem exists_unit?_escape {c : Char} (hescape : isEscape c = true) (rest : List Char) :
    ∃ bytes, unit? '"' ('\\' :: c :: rest) = some (bytes, 2) := by
  have hcases : c = 'n' ∨ c = 't' ∨ c = '"' ∨ c = '\\' := by
    simpa [isEscape, or_assoc] using hescape
  rcases hcases with rfl | rfl | rfl | rfl
  · exact ⟨[10], rfl⟩
  · exact ⟨[9], rfl⟩
  · exact ⟨_, rfl⟩
  · exact ⟨[92], rfl⟩

/-- What stands between the quotes of a string stands for bytes. -/
theorem isSome_body?_of_stringBody {body : List Char} (hbody : StringBody body) :
    (body? body).isSome = true := by
  induction hbody with
  | nil => simp [body?]
  | @plain c rest hquote hbackslash hnewline _ ih =>
      obtain ⟨bytes, hbytes⟩ := Option.isSome_iff_exists.1 ih
      rw [body?]
      simp [unit?_plain hquote hbackslash hnewline, hbytes]
  | @escape c rest hescape _ ih =>
      obtain ⟨first, hfirst⟩ := exists_unit?_escape hescape rest
      obtain ⟨bytes, hbytes⟩ := Option.isSome_iff_exists.1 ih
      rw [body?]
      simp [hfirst, hbytes]

/-- A string literal stands for bytes. -/
theorem isSome_decode?_of_lexeme {text : String} (hlexeme : Lexeme .stringLiteral text.toList) :
    (decode? text).isSome = true := by
  obtain ⟨body, hbody, htext⟩ := hlexeme.parts.2.2 rfl
  simp [decode?, htext, isSome_body?_of_stringBody hbody]

end Literal

end Text

namespace Tree

open Token (maxInt)

/-- An expression that, if it is a literal, can be read from the code made of it. Names and
whatever is not a literal are not looked at. -/
def Expr.Readable : Expr → Prop
  | .int _ value => value ≤ maxInt
  | .string _ text => (Text.Literal.decode? text).isSome = true
  | _ => True

mutual

theorem Expr.Spelled.readable : ∀ {expr : Expr}, expr.Spelled →
    ∀ part ∈ expr.parts, part.Readable
  | .int _ value, hspelled => by
      simp only [Expr.parts, List.forall_mem_singleton]
      exact hspelled
  | .string _ text, hspelled => by
      simp only [Expr.parts, List.forall_mem_singleton]
      exact Text.Literal.isSome_decode?_of_lexeme hspelled
  | .bool _ _, _ => by simp [Expr.parts, Expr.Readable]
  | .name _, _ => by simp [Expr.parts, Expr.Readable]
  | .field _ base _, hspelled => by
      simp only [Expr.parts, List.forall_mem_cons]
      exact ⟨trivial, Expr.Spelled.readable hspelled.1⟩
  | .unary _ _ operand, hspelled => by
      have hoperand : operand.Spelled := hspelled
      simp only [Expr.parts, List.forall_mem_cons]
      exact ⟨trivial, Expr.Spelled.readable hoperand⟩
  | .binary _ _ left right, hspelled => by
      simp only [Expr.parts, List.forall_mem_cons, List.forall_mem_append]
      exact ⟨trivial, Expr.Spelled.readable hspelled.1, Expr.Spelled.readable hspelled.2⟩
  | .assign _ target source, hspelled => by
      simp only [Expr.parts, List.forall_mem_cons, List.forall_mem_append]
      exact ⟨trivial, Expr.Spelled.readable hspelled.1, Expr.Spelled.readable hspelled.2⟩
  | .call _ _ args, hspelled => by
      simp only [Expr.parts, List.forall_mem_cons]
      exact ⟨trivial, Expr.AllSpelled.readable hspelled.2⟩

theorem Expr.AllSpelled.readable : ∀ {exprs : List Expr}, Expr.AllSpelled exprs →
    ∀ part ∈ Expr.partsAll exprs, part.Readable
  | [], _ => by simp [Expr.partsAll]
  | first :: rest, hspelled => by
      simp only [Expr.partsAll, List.forall_mem_append]
      exact ⟨Expr.Spelled.readable hspelled.1, Expr.AllSpelled.readable hspelled.2⟩

end

mutual

theorem Stmt.Spelled.readable : ∀ {stmt : Stmt}, stmt.Spelled →
    ∀ part ∈ stmt.exprs, part.Readable
  | .declare _, _ => by simp [Stmt.exprs]
  | .assign _ inner target source, hspelled => by
      have hexpr : (Expr.assign inner target source).Spelled := hspelled
      exact hexpr.readable
  | .increment _ place, hspelled | .decrement _ place, hspelled | .receive _ place, hspelled => by
      have hplace : place.Spelled := hspelled
      exact hplace.readable
  | .report _ source, hspelled => by
      have hsource : source.Spelled := hspelled
      exact hsource.readable
  | .return _ none, _ => by simp [Stmt.exprs]
  | .return _ (some value), hspelled => by
      have hvalue : value.Spelled := hspelled
      exact hvalue.readable
  | .call _ inner callee args, hspelled => by
      have hexpr : (Expr.call inner callee args).Spelled := hspelled
      exact hexpr.readable
  | .if _ condition body, hspelled | .while _ condition body, hspelled => by
      simp only [Stmt.exprs, List.forall_mem_append]
      exact ⟨hspelled.1.readable, Stmt.AllSpelled.readable hspelled.2⟩
  | .ifElse _ condition body otherwise, hspelled => by
      simp only [Stmt.exprs, List.forall_mem_append]
      exact ⟨hspelled.1.readable, Stmt.AllSpelled.readable hspelled.2.1,
        Stmt.AllSpelled.readable hspelled.2.2⟩

theorem Stmt.AllSpelled.readable : ∀ {stmts : List Stmt}, Stmt.AllSpelled stmts →
    ∀ part ∈ Stmt.exprsAll stmts, part.Readable
  | [], _ => by simp [Stmt.exprsAll]
  | first :: rest, hspelled => by
      simp only [Stmt.exprsAll, List.forall_mem_append]
      exact ⟨Stmt.Spelled.readable hspelled.1, Stmt.AllSpelled.readable hspelled.2⟩

end

theorem Decl.Spelled.readable {decl : Decl} (hspelled : decl.Spelled) :
    ∀ part ∈ decl.exprs, part.Readable := by
  cases decl with
  | var => simp [Decl.exprs]
  | record => simp [Decl.exprs]
  | fn decl => exact hspelled.2.2.2.readable

/-- The literals of a program that was parsed can be read from its code. -/
theorem readable_of_parse {text : List Char} {program : Program}
    (hparse : (parse (.ofText text)).program = some program) :
    ∀ decl ∈ program.decls, ∀ part ∈ decl.exprs, part.Readable := by
  obtain ⟨_, _, _, _, hproper, hprogram⟩ := cuts_of_parse hparse
  exact fun decl hdecl => (hprogram.spelled hproper decl hdecl).readable

end Tree

end Shanty
