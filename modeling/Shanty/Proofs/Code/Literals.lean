/-
# The literals in the code

A string literal has no code of its own. Whatever uses it names its place in the list of strings of
the program, where its text stands as it was written. So the string operands of a procedure are the
literals of its function, each of them once. Their order is that in which they are used: an argument
is passed only after the calls in the arguments next to it have been made.
-/

import Shanty.Proofs.Code.Definitions
import Shanty.Proofs.Code.Derivation
import Shanty.Proofs.Code.Expressions

namespace Shanty.Code

open Shanty.Tree (Expr)
open Lowering (passing)

variable {tree : Tree.Program} {symbols : List Symbol} {result : Ty} {draft draft' : Draft}
  {code moreCode : List Quad}

/-! ## Texts in expressions -/

/-- The text of a literal, if an expression is one. -/
def leftTexts : Expr → List String
  | .string _ text => [text]
  | _ => []

mutual

/-- The texts of the literals in an expression, in the order in which its code uses them. If the
expression is a literal itself, its code does not use it. -/
def usedTexts : Expr → List String
  | .int _ _ | .string _ _ | .bool _ _ | .name _ => []
  | .field _ base _ => usedTexts base ++ leftTexts base
  | .unary _ _ operand => usedTexts operand ++ leftTexts operand
  | .binary _ _ left right =>
      usedTexts left ++ usedTexts right ++ (leftTexts left ++ leftTexts right)
  | .assign _ target source =>
    usedTexts source ++ usedTexts target ++ (leftTexts target ++ leftTexts source)
  | .call _ _ args => usedTextsAll args ++ args.flatMap leftTexts

/-- The same for several expressions, one after the other. -/
def usedTextsAll : List Expr → List String
  | [] => []
  | first :: rest => usedTexts first ++ usedTextsAll rest

end

/-- The texts of all literals in an expression, in the order in which code uses them. -/
def textsIn (expr : Expr) : List String := usedTexts expr ++ leftTexts expr

/-! ## Texts in code -/

/-- What a string operand stands for where some strings are known. -/
def Operand.texts (strings : List String) : Operand → List (Option String)
  | .string index => [strings[index]?]
  | _ => []

/-- What the string operands of some quads stand for, in the order of the code. -/
def textsOf (strings : List String) (quads : List Quad) : List (Option String) :=
  quads.flatMap fun quad => quad.instr.operands.flatMap (·.texts strings)

variable {strings : List String}

@[simp]
theorem textsOf_append (front back : List Quad) :
    textsOf strings (front ++ back) = textsOf strings front ++ textsOf strings back :=
  List.flatMap_append

@[simp]
theorem textsOf_singleton (quad : Quad) :
    textsOf strings [quad] = quad.instr.operands.flatMap (·.texts strings) :=
  List.flatMap_singleton _ _

theorem textsOf_receiveArgs (count position : Nat) (formals : List Symbol) :
    textsOf strings (Lowering.receiveArgs count position formals) = [] := by
  induction formals generalizing position with
  | nil => rfl
  | cons formal formals ih => exact ih (position + 1)

theorem textsOf_passing (position : Nat) {types : List Ty} {operands : List Operand}
    (hlength : types.length = operands.length) :
    textsOf strings (passing position types operands) = operands.flatMap (·.texts strings) := by
  induction types generalizing position operands with
  | nil =>
      obtain rfl := List.length_eq_zero_iff.1 hlength.symm
      rfl
  | cons type types ih =>
      cases operands with
      | nil => cases hlength
      | cons operand operands =>
          rw [passing, ← List.singleton_append, textsOf_append, textsOf_singleton,
            ih (position + 1) (Nat.succ.inj hlength), List.flatMap_cons]
          congr 1
          exact List.flatMap_singleton _ _

/-! ## Expressions and statements -/

/-- Some code uses the texts of some literals, and its operands are the literals that are left. -/
structure Spells (strings : List String) (code : List Quad) (operands : List Operand)
    (used left : List String) : Prop where
  used : textsOf strings code = used.map some
  left : operands.flatMap (·.texts strings) = left.map some

namespace Spells

variable {operands moreOperands : List Operand} {used left moreUsed moreLeft : List String}

/-- An operand that is no literal. -/
theorem nothing {operand : Operand} (htexts : operand.texts strings = []) :
    Spells strings [] [operand] [] [] :=
  ⟨rfl, by rw [List.flatMap_singleton, htexts]; rfl⟩

theorem append (hfirst : Spells strings code operands used left)
    (hsecond : Spells strings moreCode moreOperands moreUsed moreLeft) :
    Spells strings (code ++ moreCode) (operands ++ moreOperands) (used ++ moreUsed)
      (left ++ moreLeft) where
  used := by rw [textsOf_append, hfirst.used, hsecond.used, List.map_append]
  left := by rw [List.flatMap_append, hfirst.left, hsecond.left, List.map_append]

/-- Quads that use operands in some order, and then no literal is left. -/
theorem use {quads : List Quad} {texts : List String}
    (hcode : Spells strings code operands used left)
    (hquads : textsOf strings quads = texts.map some)
    (hoperands : moreOperands.flatMap (·.texts strings) = []) :
    Spells strings (code ++ quads) moreOperands (used ++ texts) [] where
  used := by rw [textsOf_append, hcode.used, hquads, List.map_append]
  left := hoperands

/-- A quad that uses all operands in order, and puts something into an operand that is no
literal. -/
theorem define {instr : Instr} {operand : Operand}
    (hcode : Spells strings code operands used left) (hinstr : instr.operands = operand :: operands)
    (hoperand : operand.texts strings = []) :
    Spells strings (code ++ [.plain instr]) [operand] (used ++ left) [] := by
  refine hcode.use ?_ (by rw [List.flatMap_singleton, hoperand])
  rw [textsOf_singleton, Quad.plain, hinstr, List.flatMap_cons, hoperand, hcode.left]
  rfl

/-- The code of a call uses its arguments. -/
theorem call (hcode : Spells strings code operands used left) {params : List Ty}
    (hlength : params.length = operands.length) (callee : String) :
    Spells strings (code ++ (passing 1 params operands ++ [.plain (.call callee)])) []
      (used ++ left) [] := by
  refine hcode.use ?_ rfl
  rw [textsOf_append, textsOf_passing 1 hlength, hcode.left]
  exact List.append_nil _

end Spells

/-- A place is no literal. -/
theorem ExprCode.texts_eq_nil {expr : Expr} {type : Ty} {operand : Operand}
    (hcode : ExprCode tree symbols draft expr type operand code draft')
    (hplace : expr.isPlace = true) : operand.texts strings = [] := by
  rcases hcode.isLocated hplace with ⟨var, rfl⟩ | ⟨temp, rfl⟩ <;> rfl

theorem spells_string (text : String)
    (hstrings : (draft.string text).2.program.strings <+: strings) :
    Spells strings [] [(draft.string text).1] [] [text] := by
  have hstring := draft.getElem?_string text
  obtain ⟨hlt, _⟩ := List.getElem?_eq_some_iff.1 hstring
  obtain ⟨more, rfl⟩ := hstrings
  refine ⟨rfl, ?_⟩
  rw [List.flatMap_singleton]
  change [((draft.string text).2.program.strings ++ more)[draft.program.strings.idxOf text]?] = _
  rw [List.getElem?_append_left hlt, hstring]
  rfl

mutual

/-- The string operands in the code of an expression are the literals in it. -/
theorem ExprCode.spells : ∀ {draft draft' : Draft} {expr : Expr} {type : Ty} {operand : Operand}
    {code : List Quad}, ExprCode tree symbols draft expr type operand code draft' →
      draft'.program.strings <+: strings →
      Spells strings code [operand] (usedTexts expr) (leftTexts expr)
  | _, _, _, _, _, _, .int, _ | _, _, _, _, _, _, .bool, _ | _, _, _, _, _, _, .name _ _ _, _ =>
      .nothing rfl
  | _, _, _, _, _, _, .string _, hstrings => spells_string _ hstrings
  | _, _, _, _, _, _, .field _ _ hbase, hstrings => (hbase.spells hstrings).define rfl rfl
  | _, _, _, _, _, _, .unary _ hoperand, hstrings => (hoperand.spells hstrings).define rfl rfl
  | _, _, _, _, _, _, .binary _ hleft hright, hstrings =>
      ((hleft.spells (hright.leads.grows.strings.trans hstrings)).append
        (hright.spells hstrings)).define rfl rfl
  | _, _, _, _, _, _, .assign hplace _ hsource htarget, hstrings => by
      have hvalue := hsource.spells (htarget.leads.grows.strings.trans hstrings)
      have hlocation := htarget.spells hstrings
      refine (hvalue.append hlocation).use ?_ ?_
      · rw [textsOf_singleton, List.map_append, ← hvalue.left, ← hlocation.left]
        exact List.flatMap_append
      · rw [List.flatMap_singleton, htarget.texts_eq_nil hplace]
  | _, _, _, _, _, _, .call _ _ _ hargs, hstrings => by
      refine ⟨?_, rfl⟩
      rw [textsOf_append, ((hargs.spells hstrings).call hargs.types_length _).used]
      exact List.append_nil _

theorem ExprsCode.spells : ∀ {draft draft' : Draft} {args : List Expr} {types : List Ty}
    {operands : List Operand} {code : List Quad},
      ExprsCode tree symbols draft args types operands code draft' →
      draft'.program.strings <+: strings →
      Spells strings code operands (usedTextsAll args) (args.flatMap leftTexts)
  | _, _, _, _, _, _, .nil, _ => ⟨rfl, rfl⟩
  | _, _, _, _, _, _, .cons _ hfirst hrest, hstrings =>
      (hfirst.spells (hrest.leads.grows.strings.trans hstrings)).append (hrest.spells hstrings)

end

/-- A statement uses the operand of its expression if it is a literal. -/
theorem Use.textsOf_eq {expr : Expr} {type : Ty} {operand : Operand} {instrs : List Instr}
    (hcode : ExprCode tree symbols draft expr type operand code draft')
    (huse : Use result expr type operand instrs) :
    textsOf strings (instrs.map .plain) = operand.texts strings := by
  cases huse with
  | assign =>
      cases hcode with
      | assign hplace _ _ htarget => exact (htarget.texts_eq_nil hplace).symm
  | step _ hplace | receive hplace _ =>
      rcases hcode.isLocated hplace with ⟨var, rfl⟩ | ⟨temp, rfl⟩ <;> rfl
  | report | returnValue | test =>
      rw [List.map_singleton, textsOf_singleton]
      exact List.flatMap_singleton _ _

/-- The string operands in a piece of code are the literals in the expression that it evaluates. -/
theorem Piece.exists_texts {parts : List Expr}
    (hpiece : Piece tree symbols result draft parts code draft')
    (hstrings : draft'.program.strings <+: strings) :
    ∃ exprs : List Expr, exprs.flatMap (·.parts) = parts ∧
      textsOf strings code = (exprs.flatMap textsIn).map some := by
  cases hpiece with
  | declare | label | landing | goto => exact ⟨[], rfl, rfl⟩
  | expr hcode huse =>
      have hspells := hcode.spells hstrings
      refine ⟨[_], List.flatMap_singleton _ _, ?_⟩
      rw [textsOf_append, hspells.used, huse.textsOf_eq hcode, List.flatMap_singleton, textsIn,
        List.map_append, ← hspells.left, List.flatMap_singleton]
  | call _ _ hargs | callIdle _ _ _ hargs =>
      refine ⟨[_], List.flatMap_singleton _ _, ?_⟩
      rw [((hargs.spells hstrings).call hargs.types_length _).used, List.flatMap_singleton]
      exact congrArg _ (List.append_nil _).symm

theorem Pieces.exists_texts {parts : List Expr}
    (hpieces : Pieces tree symbols result draft parts code draft')
    (hstrings : draft'.program.strings <+: strings) :
    ∃ exprs : List Expr, exprs.flatMap (·.parts) = parts ∧
      textsOf strings code = (exprs.flatMap textsIn).map some := by
  induction hpieces with
  | nil => exact ⟨[], rfl, rfl⟩
  | cons hpiece hpieces ih =>
      obtain ⟨exprs, hparts, htexts⟩ :=
        hpiece.exists_texts (hpieces.leads.grows.strings.trans hstrings)
      obtain ⟨moreExprs, hmoreParts, hmoreTexts⟩ := ih hstrings
      refine ⟨exprs ++ moreExprs, ?_, ?_⟩
      · rw [List.flatMap_append, hparts, hmoreParts]
      · rw [textsOf_append, htexts, hmoreTexts, List.flatMap_append, List.map_append]

end Shanty.Code
