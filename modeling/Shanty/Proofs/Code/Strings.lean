/-
# Where the strings of a program come from

Lowering puts a string into the list of the program when it comes to a literal, and nowhere else. So
each string of the code is the text of a literal of the tree, whatever the tree is.
-/

import Shanty.Code.Lowering
import Shanty.Proofs.Fault
import Shanty.Proofs.Tree.Marks

namespace Shanty.Code

open Shanty.Tree (Expr Stmt Ident Node VarDecl FnDecl Decl)

/-- All strings of a program are among the known ones. -/
def Program.Quotes (known : String → Prop) (program : Program) : Prop :=
  ∀ text ∈ program.strings, known text

/-- The texts of all literals among some expressions are known. -/
def Quoted (known : String → Prop) (parts : List Expr) : Prop :=
  ∀ node text, .string node text ∈ parts → known text

namespace Quoted

variable {known : String → Prop} {parts others : List Expr} {part : Expr}

theorem left (hquoted : Quoted known (parts ++ others)) : Quoted known parts :=
  fun node text hmem => hquoted node text (List.mem_append_left others hmem)

theorem right (hquoted : Quoted known (parts ++ others)) : Quoted known others :=
  fun node text hmem => hquoted node text (List.mem_append_right parts hmem)

theorem tail (hquoted : Quoted known (part :: parts)) : Quoted known parts :=
  fun node text hmem => hquoted node text (List.mem_cons_of_mem part hmem)

end Quoted

namespace Lowering

variable {known : String → Prop}

theorem quotes_string {draft : Draft} {text : String} (hdraft : draft.program.Quotes known)
    (htext : known text) : (draft.string text).2.program.Quotes known := by
  simp only [Draft.string, Program.intern]
  split
  · exact hdraft
  · exact List.forall_mem_append.2 ⟨hdraft, List.forall_mem_singleton.2 htext⟩

theorem quotes_newLabel {draft : Draft} (hdraft : draft.program.Quotes known) :
    draft.newLabel.2.program.Quotes known := hdraft

/-- A call uses no string but those that its arguments use. -/
theorem call_quotes {draft : Draft} (callee : Ident) (args : List (Expr × Operand))
    (hdraft : draft.program.Quotes known) :
    Ensures (call callee args draft) (fun answer => answer.2.2.program.Quotes known) := by
  refine (Ensures.trivially _).bind fun _ _ => (Ensures.trivially _).bind fun symbol _ => ?_
  dsimp only
  split
  · exact .error
  · exact .pure hdraft
  · exact .pure hdraft

mutual

theorem expr_quotes : ∀ (whole : Expr) {draft : Draft}, Quoted known whole.parts →
    draft.program.Quotes known →
    Ensures (expr draft whole) (fun answer => answer.2.2.program.Quotes known)
  | .int _ _, _, _, hdraft | .bool _ _, _, _, hdraft => .ok hdraft
  | .string node text, _, hquoted, hdraft =>
      .ok (quotes_string hdraft (hquoted node text (.head _)))
  | .name ident, draft, _, hdraft => by
      unfold expr
      split
      · exact .ok hdraft
      · exact .error
  | .field _ base selector, _, hquoted, hdraft =>
      (expr_quotes base hquoted.tail hdraft).bind fun _ hbase =>
        (Ensures.trivially _).bind fun _ _ => .pure hbase
  | .assign _ target source, _, hquoted, hdraft =>
      (expr_quotes source hquoted.tail.right hdraft).bind fun _ hsource =>
        (expr_quotes target hquoted.tail.left hsource).bind fun _ htarget => .pure htarget
  | .call _ callee args, _, hquoted, hdraft =>
      (exprs_quotes args hquoted.tail hdraft).bind fun _ hargs =>
        (call_quotes callee _ hargs).bind fun _ hcall => .pure hcall
  | .unary node op operand, _, hquoted, hdraft => by
      refine (expr_quotes operand hquoted.tail hdraft).bind fun _ hoperand => ?_
      dsimp only
      split
      · exact .error
      · exact (Ensures.trivially _).bind fun _ _ => .pure hoperand
  | .binary node op left right, _, hquoted, hdraft => by
      refine (expr_quotes left hquoted.tail.left hdraft).bind fun _ hleft => ?_
      refine (expr_quotes right hquoted.tail.right hleft).bind fun _ hright => ?_
      dsimp only
      split
      · exact .error
      · exact (Ensures.trivially _).bind fun _ _ => .pure hright

theorem exprs_quotes : ∀ (wholes : List Expr) {draft : Draft}, Quoted known (Expr.partsAll wholes) →
    draft.program.Quotes known →
    Ensures (exprs draft wholes) (fun answer => answer.2.2.program.Quotes known)
  | [], _, _, hdraft => .ok hdraft
  | first :: rest, _, hquoted, hdraft =>
      (expr_quotes first hquoted.left hdraft).bind fun _ hfirst =>
        (exprs_quotes rest hquoted.right hfirst).bind fun _ hrest => .pure hrest

end

theorem step_quotes (op : BinaryOp) {draft : Draft} (place : Expr)
    (hquoted : Quoted known place.parts) (hdraft : draft.program.Quotes known) :
    Ensures (step op draft place) (fun answer => answer.2.program.Quotes known) :=
  (expr_quotes place hquoted hdraft).bind fun _ hplace => .pure hplace

mutual

theorem stmt_quotes : ∀ (whole : Stmt) {draft : Draft}, Quoted known whole.exprs →
    draft.program.Quotes known →
    Ensures (stmt draft whole) (fun answer => answer.2.program.Quotes known)
  | .declare _, _, _, hdraft => (Ensures.trivially _).bind fun _ _ => .pure hdraft
  | .assign _ inner target source, _, hquoted, hdraft =>
      (expr_quotes (.assign inner target source) hquoted hdraft).bind fun _ hexpr => .pure hexpr
  | .increment _ place, _, hquoted, hdraft => step_quotes .add place hquoted hdraft
  | .decrement _ place, _, hquoted, hdraft => step_quotes .sub place hquoted hdraft
  | .receive _ place, _, hquoted, hdraft =>
      (expr_quotes place hquoted hdraft).bind fun _ hplace =>
        (Ensures.trivially _).bind fun _ _ => .pure hplace
  | .report _ source, _, hquoted, hdraft =>
      (expr_quotes source hquoted hdraft).bind fun _ hsource =>
        (Ensures.trivially _).bind fun _ _ => .pure hsource
  | .return _ none, _, _, hdraft => .ok hdraft
  | .return _ (some value), _, hquoted, hdraft =>
      (expr_quotes value hquoted hdraft).bind fun _ hvalue =>
        (Ensures.trivially _).bind fun _ _ => .pure hvalue
  | .call _ inner callee args, _, hquoted, hdraft =>
      (exprs_quotes args (hquoted.tail : Quoted known (Expr.partsAll args)) hdraft).bind
        fun _ hargs => (call_quotes callee _ hargs).bind fun _ hcall => .pure hcall
  | .if _ condition body, _, hquoted, hdraft => by
      refine (expr_quotes condition hquoted.left hdraft).bind fun _ hcondition => ?_
      exact (block_quotes body hquoted.right (quotes_newLabel hcondition)).bind fun _ hbody =>
        .pure hbody
  | .ifElse _ condition body otherwise, _, hquoted, hdraft => by
      refine (expr_quotes condition hquoted.left
        (quotes_newLabel (quotes_newLabel hdraft))).bind fun _ hcondition => ?_
      refine (block_quotes body hquoted.right.left hcondition).bind fun _ hbody => ?_
      exact (block_quotes otherwise hquoted.right.right hbody).bind fun _ hotherwise =>
        .pure hotherwise
  | .while _ condition body, _, hquoted, hdraft => by
      refine (expr_quotes condition hquoted.left
        (quotes_newLabel (quotes_newLabel hdraft))).bind fun _ hcondition => ?_
      exact (block_quotes body hquoted.right hcondition).bind fun _ hbody => .pure hbody

theorem block_quotes : ∀ (wholes : List Stmt) {draft : Draft}, Quoted known (Stmt.exprsAll wholes) →
    draft.program.Quotes known →
    Ensures (block draft wholes) (fun answer => answer.2.program.Quotes known)
  | [], _, _, hdraft => .ok hdraft
  | first :: rest, _, hquoted, hdraft =>
      (stmt_quotes first hquoted.left hdraft).bind fun _ hfirst =>
        (block_quotes rest hquoted.right hfirst).bind fun _ hrest => .pure hrest

end

theorem function_quotes {program : Program} (decl : FnDecl)
    (hquoted : Quoted known (Stmt.exprsAll decl.body)) (hprogram : program.Quotes known) :
    Ensures (function program decl) (·.Quotes known) := by
  refine (Ensures.trivially _).bind fun symbol _ => ?_
  dsimp only
  split
  · exact .error
  · refine (Ensures.trivially _).bind fun formals _ => ?_
    exact (block_quotes decl.body hquoted hprogram).bind fun answer hanswer => .pure hanswer

theorem declaration_quotes {program : Program} (decl : Decl) (hquoted : Quoted known decl.exprs)
    (hprogram : program.Quotes known) : Ensures (declaration program decl) (·.Quotes known) := by
  cases decl with
  | var => exact (Ensures.trivially _).bind fun _ _ => .pure hprogram
  | record => exact .ok hprogram
  | fn decl => exact function_quotes decl hquoted hprogram

theorem declarations_quote {decls : List Decl} {program : Program}
    (hquoted : Quoted known (decls.flatMap (·.exprs))) (hprogram : program.Quotes known) :
    Ensures (decls.foldlM declaration program) (·.Quotes known) := by
  induction decls generalizing program with
  | nil => exact .pure hprogram
  | cons first rest ih =>
      rw [List.foldlM_cons]
      exact (declaration_quotes first hquoted.left hprogram).bind fun _ hfirst =>
        ih hquoted.right hfirst

end Lowering

/-- Each string of the code of a program is written in the program. -/
theorem strings_of_lower {tree : Tree.Program} {code : Program} (hlower : lower tree = .ok code) :
    ∀ text ∈ code.strings, ∃ node, .string node text ∈ tree.exprs := by
  have hquoted : Quoted (fun text => ∃ node, .string node text ∈ tree.exprs) tree.exprs :=
    fun node _ hmem => ⟨node, hmem⟩
  have hempty : Program.Quotes (fun text => ∃ node, .string node text ∈ tree.exprs) {} :=
    List.forall_mem_nil _
  exact Lowering.declarations_quote hquoted hempty code hlower

end Shanty.Code
