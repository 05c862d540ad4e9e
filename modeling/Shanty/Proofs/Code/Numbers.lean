/-
# The numbers in the code

The numbers that code computes with are those of its function: its integers, its truth values as ones
and zeros, and a one for each statement that counts up or down. Each of them is written down once, in
decimal and without zeros in front.

A literal has no code of its own, so an account is kept while code is put together. Of the numbers
that have come up, each is in the code already or is an operand that the code around it will use.
-/

import Mathlib.Data.List.Basic
import Shanty.Proofs.Code.Definitions
import Shanty.Proofs.Code.Lowering
import Shanty.Proofs.Code.Peephole.Condensation
import Shanty.Proofs.Fault
import Shanty.Proofs.Tree.Statements

namespace Shanty

/-! ## Numbers of a program -/

namespace Tree

/-- The number that an expression is, if it is an integer or a truth value. -/
def Expr.number? : Expr → Option Nat
  | .int _ value => some value
  | .bool _ value => some value.toNat
  | _ => none

/-- The numbers among some expressions. -/
def numbersOf (parts : List Expr) : List Nat := parts.filterMap (·.number?)

/-- The number that a statement counts with, if it counts up or down. -/
def Stmt.step? : Stmt → Option Nat
  | .increment _ _ | .decrement _ _ => some 1
  | _ => none

/-- The numbers that some statements count with. -/
def stepsOf (stmts : List Stmt) : List Nat := stmts.filterMap (·.step?)

/-- The numbers in the body of a function. -/
def FnDecl.numbers (decl : FnDecl) : List Nat :=
  numbersOf (Stmt.exprsAll decl.body) ++ stepsOf (Stmt.withinAll decl.body)

@[simp]
theorem numbersOf_append (parts others : List Expr) :
    numbersOf (parts ++ others) = numbersOf parts ++ numbersOf others :=
  List.filterMap_append

theorem numbersOf_cons {part : Expr} (hpart : part.number? = none) (others : List Expr) :
    numbersOf (part :: others) = numbersOf others :=
  List.filterMap_cons_none hpart

@[simp]
theorem stepsOf_append (stmts others : List Stmt) :
    stepsOf (stmts ++ others) = stepsOf stmts ++ stepsOf others :=
  List.filterMap_append

theorem stepsOf_cons {stmt : Stmt} (hstmt : stmt.step? = none) (others : List Stmt) :
    stepsOf (stmt :: others) = stepsOf others :=
  List.filterMap_cons_none hstmt

end Tree

namespace Code

open Shanty.Tree (Expr Stmt Ident Node FnDecl numbersOf stepsOf numbersOf_cons stepsOf_cons)
open Shanty.Acceptance (GoodStmt GoodStmts)

/-! ## Constants of code -/

/-- The text of an operand that is a constant. -/
def Operand.constant? : Operand → Option String
  | .constant text => some text
  | _ => none

/-- The constants among some operands. -/
def constantsIn (operands : List Operand) : List String := operands.filterMap (·.constant?)

/-- The constants that an instruction reads. -/
def Instr.constants (instr : Instr) : List String := constantsIn instr.sources

/-- The constants that some quads read, in the order of the code. -/
def constantsOf (quads : List Quad) : List String := quads.flatMap (·.instr.constants)

@[simp]
theorem constantsIn_append (operands others : List Operand) :
    constantsIn (operands ++ others) = constantsIn operands ++ constantsIn others :=
  List.filterMap_append

theorem constantsIn_cons (operand : Operand) (others : List Operand) :
    constantsIn (operand :: others) = constantsIn [operand] ++ constantsIn others :=
  constantsIn_append [operand] others

@[simp]
theorem constantsOf_append (quads others : List Quad) :
    constantsOf (quads ++ others) = constantsOf quads ++ constantsOf others :=
  List.flatMap_append

theorem constantsOf_cons (quad : Quad) (quads : List Quad) :
    constantsOf (quad :: quads) = quad.instr.constants ++ constantsOf quads :=
  List.flatMap_cons

@[simp]
theorem constantsOf_singleton (quad : Quad) : constantsOf [quad] = quad.instr.constants :=
  List.flatMap_singleton _ _

theorem constantsOf_receiveArgs (count position : Nat) (formals : List Symbol) :
    constantsOf (Lowering.receiveArgs count position formals) = [] := by
  induction formals generalizing position with
  | nil => rfl
  | cons formal formals ih => exact ih (position + 1)

/-! ## The account -/

/-- Some numbers are accounted for: they are the constants in some code and among the operands that
are still to be used, each written in decimal. -/
def Accounts (code : List Quad) (operands : List Operand) (numbers : List Nat) : Prop :=
  (constantsOf code ++ constantsIn operands).Perm (numbers.map toString)

namespace Accounts

variable {code moreCode quads : List Quad} {operands moreOperands : List Operand}
  {numbers moreNumbers : List Nat}

/-- An operand without code. -/
theorem single {operand : Operand} (hoperand : constantsIn [operand] = numbers.map toString) :
    Accounts [] [operand] numbers :=
  .of_eq hoperand

theorem perm (haccounts : Accounts code operands numbers) (hperm : numbers.Perm moreNumbers) :
    Accounts code operands moreNumbers :=
  haccounts.trans (hperm.map _)

theorem append (hfirst : Accounts code operands numbers)
    (hsecond : Accounts moreCode moreOperands moreNumbers) :
    Accounts (code ++ moreCode) (operands ++ moreOperands) (numbers ++ moreNumbers) := by
  rw [Accounts, constantsOf_append, constantsIn_append, List.map_append]
  refine List.Perm.trans ?_ (List.Perm.append hfirst hsecond)
  rw [List.append_assoc, List.append_assoc]
  refine List.Perm.append_left _ ?_
  rw [← List.append_assoc, ← List.append_assoc]
  exact List.perm_append_comm.append_right _

/-- Quads that use some of the operands, and bring up some numbers of their own. -/
theorem use (hcode : Accounts code operands numbers)
    (hquads : constantsOf quads ++ constantsIn moreOperands =
      constantsIn operands ++ moreNumbers.map toString) :
    Accounts (code ++ quads) moreOperands (numbers ++ moreNumbers) := by
  rw [Accounts, constantsOf_append, List.append_assoc, hquads, ← List.append_assoc, List.map_append]
  exact hcode.append_right _

/-- Quads that use just the operands. -/
theorem consume (hcode : Accounts code operands numbers)
    (hquads : constantsOf quads ++ constantsIn moreOperands = constantsIn operands) :
    Accounts (code ++ quads) moreOperands numbers := by
  have huse := @use _ quads _ moreOperands _ [] hcode (hquads.trans (List.append_nil _).symm)
  rwa [List.append_nil] at huse

theorem landing (label : Label) : Accounts [.landing label] [] [] := .refl _

/-- Quads that have nothing to do with the numbers. -/
theorem extend (hcode : Accounts code [] numbers) (hquads : constantsOf quads = []) :
    Accounts (code ++ quads) [] numbers :=
  hcode.consume (by rw [hquads]; rfl)

/-- A conditional jump that tests the operand. -/
theorem test {operand : Operand} (hcode : Accounts code [operand] numbers) (label : Label) :
    Accounts (code ++ [.plain (.ifZero operand label)]) [] numbers :=
  hcode.consume (by rw [constantsOf_singleton]; exact List.append_nil _)

/-- Code that has used all its operands. -/
theorem settled (haccounts : Accounts code [] numbers) :
    (constantsOf code).Perm (numbers.map toString) :=
  (List.Perm.of_eq (List.append_nil _).symm).trans haccounts

/-- Operands that are no constants need not be used. -/
theorem drop (hcode : Accounts code operands numbers) (hoperands : constantsIn operands = []) :
    Accounts code [] numbers := by
  have hdropped := hcode
  rw [Accounts, hoperands] at hdropped
  exact hdropped

end Accounts

namespace Lowering

/-! ## Expressions -/

/-- The operand of a place is no constant. -/
theorem expr_located {whole : Expr} (hplace : whole.isPlace = true) (draft : Draft) :
    Ensures (expr draft whole) (fun answer => constantsIn [answer.1] = []) := by
  cases whole with
  | name ident =>
      unfold expr
      split
      · exact .ok rfl
      · exact .error
  | field node base selector =>
      exact (Ensures.trivially _).bind fun _ _ => (Ensures.trivially _).bind fun _ _ => .pure rfl
  | _ => cases hplace

/-- Passing arguments uses their operands. -/
theorem constantsOf_passArgs (position : Nat) (args : List (Expr × Operand)) :
    Ensures (passArgs position args)
      (fun quads => constantsOf quads = constantsIn (args.map (·.2))) := by
  induction args generalizing position with
  | nil => exact .ok rfl
  | cons arg args ih =>
      refine (Ensures.trivially _).bind fun type _ => (ih (position + 1)).bind fun quads hquads => ?_
      refine .pure ?_
      rw [constantsOf_cons, hquads, List.map_cons, constantsIn_cons]
      rfl

theorem constantsOf_call (callee : Ident) {args : List Expr} {operands : List Operand}
    (hlength : operands.length = args.length) (draft : Draft) :
    Ensures (call callee (args.zip operands) draft)
      (fun answer => constantsOf answer.2.1 = constantsIn operands) := by
  refine (constantsOf_passArgs 1 _).bind fun quads hquads => ?_
  refine (Ensures.trivially _).bind fun symbol _ => ?_
  rw [List.map_snd_zip hlength.le] at hquads
  have hcode : constantsOf (quads ++ [.plain (.call symbol.name)]) = constantsIn operands := by
    rw [constantsOf_append, hquads]
    exact List.append_nil _
  dsimp only
  split
  · exact .error
  · exact .pure hcode
  · exact .pure hcode

mutual

/-- The code of an expression accounts for the numbers in it. -/
theorem expr_accounts : ∀ (whole : Expr) (draft : Draft), Ensures (expr draft whole)
    (fun answer => Accounts answer.2.1 [answer.1] (numbersOf whole.parts))
  | .int _ _, _ => .ok (.single rfl)
  | .bool _ value, _ => .ok (.single (by cases value <;> rfl))
  | .string _ _, _ => .ok (.single rfl)
  | .name ident, draft => by
      unfold expr
      split
      · exact .ok (.single rfl)
      · exact .error
  | .field _ base selector, draft => by
      refine (expr_accounts base draft).bind fun _ hbase => (Ensures.trivially _).bind fun _ _ => ?_
      rw [Expr.parts, numbersOf_cons rfl]
      refine .pure (hbase.consume ?_)
      rw [constantsOf_singleton]
      exact List.append_nil _
  | .assign _ target source, draft => by
      refine (expr_accounts source draft).bind fun _ hsource => ?_
      refine (expr_accounts target _).bind fun _ htarget => .pure ?_
      rw [Expr.parts, numbersOf_cons rfl, Tree.numbersOf_append]
      refine ((hsource.append htarget).consume ?_).perm List.perm_append_comm
      rw [constantsOf_singleton, constantsIn_append]
      rfl
  | .call _ callee args, draft => by
      refine (exprs_accounts args draft).bind fun answer ⟨hargs, hlength⟩ => ?_
      refine (constantsOf_call callee hlength _).bind fun result hcall => .pure ?_
      have hfetch :
          constantsOf (fetch result.1) ++ constantsIn [CallResult.operand result.1] = [] := by
        cases result.1 <;> rfl
      rw [Expr.parts, numbersOf_cons rfl, List.append_assoc]
      refine hargs.consume ?_
      rw [constantsOf_append, hcall, List.append_assoc, hfetch, List.append_nil]
  | .unary node op operand, draft => by
      refine (expr_accounts operand draft).bind fun _ hoperand => ?_
      dsimp only
      split
      · exact .error
      · refine (Ensures.trivially _).bind fun _ _ => ?_
        rw [Expr.parts, numbersOf_cons rfl]
        refine .pure (hoperand.consume ?_)
        rw [constantsOf_singleton]
        exact List.append_nil _
  | .binary node op left right, draft => by
      refine (expr_accounts left draft).bind fun _ hleft => ?_
      refine (expr_accounts right _).bind fun _ hright => ?_
      dsimp only
      split
      · exact .error
      · refine (Ensures.trivially _).bind fun _ _ => ?_
        rw [Expr.parts, numbersOf_cons rfl, Tree.numbersOf_append]
        refine .pure ((hleft.append hright).consume ?_)
        rw [constantsOf_singleton]
        exact List.append_nil _

theorem exprs_accounts : ∀ (wholes : List Expr) (draft : Draft), Ensures (exprs draft wholes)
    (fun answer => Accounts answer.2.1 answer.1 (numbersOf (Expr.partsAll wholes)) ∧
      answer.1.length = wholes.length)
  | [], _ => .ok ⟨.refl _, rfl⟩
  | first :: rest, draft => by
      refine (expr_accounts first draft).bind fun _ hfirst => ?_
      refine (exprs_accounts rest _).bind fun _ ⟨hrest, hlength⟩ =>
        .pure ⟨?_, congrArg Nat.succ hlength⟩
      rw [Expr.partsAll, Tree.numbersOf_append]
      exact hfirst.append hrest

end

/-! ## Statements -/

section Statements

variable {tree : Tree.Program} {result : Ty}

/-- The numbers in a statement and in those of its blocks. -/
def numbersIn (whole : Stmt) : List Nat := numbersOf whole.exprs ++ stepsOf whole.within

/-- The numbers in some statements and in those of their blocks. -/
def numbersInAll (wholes : List Stmt) : List Nat :=
  numbersOf (Stmt.exprsAll wholes) ++ stepsOf (Stmt.withinAll wholes)

theorem numbersInAll_cons (first : Stmt) (rest : List Stmt) :
    (numbersIn first ++ numbersInAll rest).Perm (numbersInAll (first :: rest)) := by
  rw [List.perm_iff_count]
  intro number
  simp only [numbersIn, numbersInAll, Stmt.exprsAll, Stmt.withinAll, Tree.numbersOf_append,
    Tree.stepsOf_append, List.count_append]
  omega

/-- The numbers of a condition and a block in the order in which their code has them. -/
theorem perm_block (condition : Expr) (body : List Stmt) :
    (numbersOf condition.parts ++ numbersInAll body).Perm
      (numbersOf (condition.parts ++ Stmt.exprsAll body) ++ stepsOf (Stmt.withinAll body)) := by
  rw [Tree.numbersOf_append, List.append_assoc]
  exact .refl _

/-- The same for a condition and two blocks. -/
theorem perm_blocks (condition : Expr) (body otherwise : List Stmt) :
    (numbersOf condition.parts ++ numbersInAll body ++ numbersInAll otherwise).Perm
      (numbersOf (condition.parts ++ (Stmt.exprsAll body ++ Stmt.exprsAll otherwise)) ++
        stepsOf (Stmt.withinAll body ++ Stmt.withinAll otherwise)) := by
  rw [List.perm_iff_count]
  intro number
  simp only [numbersInAll, Tree.numbersOf_append, Tree.stepsOf_append, List.count_append]
  omega

theorem step_accounts (op : BinaryOp) (draft : Draft) (place : Expr) :
    Ensures (step op draft place)
      (fun answer => Accounts answer.1 [] (numbersOf place.parts ++ [1])) := by
  refine (expr_accounts place draft).bind fun answer hplace => .pure (hplace.use ?_)
  rw [constantsOf_singleton]
  exact (List.append_nil _).trans (constantsIn_append [answer.1] [.constant "1"])

mutual

/-- The code of a statement accounts for the numbers in it. -/
theorem stmt_accounts : ∀ {vars vars' : List Nat} {whole : Stmt},
    GoodStmt tree result vars whole vars' → ∀ draft : Draft,
      Ensures (stmt draft whole) (fun answer => Accounts answer.1 [] (numbersIn whole))
  | _, _, _, .declare _ _, _ => (Ensures.trivially _).bind fun _ _ => .pure (.refl _)
  | _, _, _, @GoodStmt.assign _ _ _ _ inner target source _ hgood, draft => by
      cases hgood with
      | assign _ hplace =>
          have hlocated : Ensures (expr draft (.assign inner target source))
              (fun answer => constantsIn [answer.1] = []) :=
            (Ensures.trivially _).bind fun _ _ => (expr_located hplace _).bind fun _ hnone =>
              .pure hnone
          refine ((expr_accounts (.assign inner target source) draft).both hlocated).bind
            fun _ ⟨haccounts, hnone⟩ => .pure ?_
          exact (haccounts.drop hnone).perm (.of_eq (List.append_nil _).symm)
  | _, _, _, @GoodStmt.increment _ _ _ _ place _ _, draft => step_accounts .add draft place
  | _, _, _, @GoodStmt.decrement _ _ _ _ place _ _, draft => step_accounts .sub draft place
  | _, _, _, @GoodStmt.receive _ _ _ _ place _ hplace _ _, draft => by
      refine ((expr_accounts place draft).both (expr_located hplace draft)).bind
        fun answer ⟨haccounts, hnone⟩ => (Ensures.trivially _).bind fun _ _ => .pure ?_
      exact haccounts.use (by rw [hnone]; rfl)
  | _, _, _, @GoodStmt.report _ _ _ _ source _ _ _, draft => by
      refine (expr_accounts source draft).bind fun _ haccounts => ?_
      refine (Ensures.trivially _).bind fun _ _ => .pure (haccounts.use ?_)
      rw [constantsOf_singleton]
      rfl
  | _, _, _, .returnNothing, _ => .ok (.refl _)
  | _, _, _, @GoodStmt.returnValue _ _ _ _ value _, draft => by
      refine (expr_accounts value draft).bind fun _ haccounts => ?_
      refine (Ensures.trivially _).bind fun _ _ => .pure (haccounts.use ?_)
      rw [constantsOf_cons, constantsOf_singleton]
      exact List.append_nil _
  | _, _, _, @GoodStmt.call _ _ _ _ _ callee args _ _ _ _ _ _ _, draft => by
      refine (exprs_accounts args draft).bind fun answer ⟨hargs, hlength⟩ => ?_
      refine (constantsOf_call callee hlength _).bind fun _ hcall => .pure ?_
      exact hargs.use (by rw [hcall]; rfl)
  | _, _, _, @GoodStmt.if _ _ _ _ _ condition body _ hbody, draft => by
      refine (expr_accounts condition draft).bind fun _ hcondition => ?_
      refine (stmts_accounts hbody _).bind fun _ haccounts => .pure ?_
      exact (((hcondition.test _).append haccounts).extend rfl).perm (perm_block condition body)
  | _, _, _, @GoodStmt.ifElse _ _ _ _ _ _ condition body otherwise _ hbody hotherwise, draft => by
      refine (expr_accounts condition _).bind fun _ hcondition => ?_
      refine (stmts_accounts hbody _).bind fun _ hfirst => ?_
      refine (stmts_accounts hotherwise _).bind fun _ hsecond => .pure ?_
      exact (((((hcondition.test _).append hfirst).extend rfl).append hsecond).extend rfl).perm
        (perm_blocks condition body otherwise)
  | _, _, _, @GoodStmt.while _ _ _ _ _ condition body _ hbody, draft => by
      refine (expr_accounts condition _).bind fun _ hcondition => ?_
      refine (stmts_accounts hbody _).bind fun _ haccounts => .pure ?_
      exact ((((Accounts.landing _).append hcondition).test _).append haccounts).extend rfl |>.perm
        (perm_block condition body)

theorem stmts_accounts : ∀ {vars vars' : List Nat} {wholes : List Stmt},
    GoodStmts tree result vars wholes vars' → ∀ draft : Draft,
      Ensures (block draft wholes) (fun answer => Accounts answer.1 [] (numbersInAll wholes))
  | _, _, _, .nil, _ => .ok (.refl _)
  | _, _, _, .cons hfirst hrest, draft => by
      refine (stmt_accounts hfirst draft).bind fun _ hone => ?_
      refine (stmts_accounts hrest _).bind fun _ hmore => .pure ?_
      exact (hone.append hmore).perm (numbersInAll_cons _ _)

end

end Statements

end Lowering

/-! ## Procedures -/

/-- The constants of a procedure are some numbers, each written in decimal. -/
def Procedure.Writes (procedure : Procedure) (numbers : List Nat) : Prop :=
  (constantsOf procedure.quads).Perm (numbers.map toString)

/-- A procedure that is the code of a function writes the numbers of that function. -/
theorem Translates.writes {tree : Tree.Program} {code : Program} {decl : FnDecl}
    {procedure : Procedure} (htranslates : Translates tree code decl procedure) :
    procedure.Writes decl.numbers := by
  cases htranslates with
  | @mk _ _ formals _ _ _ _ body _ _ _ hbody _ hblock _ hquads _ _ _ =>
      have haccounts : Accounts body [] decl.numbers := Lowering.stmts_accounts hbody _ _ hblock
      have hconstants : constantsOf procedure.quads = constantsOf body := by
        rw [Procedure.quads, constantsOf_cons, hquads, constantsOf_append, constantsOf_append,
          constantsOf_receiveArgs]
        exact List.append_nil _
      rw [Procedure.Writes, hconstants]
      exact haccounts.settled

/-- Condensed code has no other constants. -/
theorem Peephole.Condenses.constants {stretches : List Peephole.Stretch} {before after : List Quad}
    (hcondenses : Peephole.Condenses stretches before after) :
    (constantsOf after).Sublist (constantsOf before) := by
  rw [hcondenses.before_eq, hcondenses.after_eq]
  generalize stretches = rest
  induction rest with
  | nil => exact .slnil
  | cons stretch rest ih =>
      rw [List.map_cons, constantsOf_cons, List.flatMap_cons, constantsOf_append,
        Peephole.Stretch.quads, constantsOf_append, constantsOf_singleton]
      exact (List.sublist_append_right _ _).append ih

/-- A procedure that has been optimized writes no other numbers. -/
theorem Procedure.Writes.optimize {procedure : Procedure} {numbers : List Nat}
    (hwrites : procedure.Writes numbers) :
    ∃ fewer, fewer.Subperm numbers ∧ procedure.optimize.Writes fewer := by
  obtain ⟨stretches, hcondensed⟩ := procedure.exists_condensedTo
  have hsublist : (constantsOf procedure.optimize.quads).Sublist (constantsOf procedure.quads) :=
    hcondensed.code.constants
  obtain ⟨texts, hperm, htexts⟩ := hsublist.subperm.trans hwrites.subperm
  obtain ⟨fewer, hfewer, rfl⟩ := List.sublist_map_iff.1 htexts
  exact ⟨fewer, hfewer.subperm, hperm.symm⟩

/-- The code of a good program has the numbers of its functions and, optimized, no others. -/
theorem CodeOf.writes {tree : Tree.Program} {code : Program} (hcode : CodeOf tree code) :
    List.Forall₂ (fun decl procedure => procedure.Writes decl.numbers) tree.functions
        code.procedures ∧
      ∀ program ∈ [code, code.optimize], List.Forall₂ (fun decl procedure =>
        ∃ numbers, numbers.Subperm decl.numbers ∧ procedure.Writes numbers) tree.functions
          program.procedures := by
  have hwrites := hcode.procedures.imp fun _ _ hboth => hboth.2.writes
  have hoptimized : List.Forall₂ (fun decl (procedure : Procedure) =>
      ∃ numbers, numbers.Subperm decl.numbers ∧ procedure.Writes numbers) tree.functions
        (code.procedures.map (·.optimize)) :=
    List.forall₂_map_right_iff.2 (hwrites.imp fun _ _ hwrites => hwrites.optimize)
  refine ⟨hwrites, List.forall_mem_cons.2 ⟨?_, List.forall_mem_singleton.2 hoptimized⟩⟩
  exact hwrites.imp fun decl _ hwrites => ⟨decl.numbers, .refl _, hwrites⟩

end Code

end Shanty
