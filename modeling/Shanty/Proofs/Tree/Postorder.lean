/-
# Nodes are numbered from the leaves up

The numbers of a parsed program are consecutive, and no number is used twice. A node comes after all
nodes below it, and the nodes below it come child by child. Only the program itself stands apart: it
is number zero.

Resolving names and checking types leave all numbers as they are, whatever mistakes they find. So
each entry in the table of meanings is that of one node.
-/

import Shanty.Proofs.Fault
import Shanty.Proofs.Tree.Nodes
import Shanty.Proofs.Tree.Numbering
import Shanty.Proofs.Tree.RoundTrip
import Shanty.Analysis
import Shanty.Text.Utf8

namespace Shanty

open Tree

/-! ## The order of the numbers -/

namespace Tree

namespace Outline

/-- A node has a larger number than all nodes below it. -/
def AfterBelow (part : Outline) : Prop :=
  ∀ below ∈ preorderAll part.children, below.node.number < part.node.number

/-- The nodes of an outline have smaller numbers than those of the outlines that come after it. -/
def Ascending (outlines : List Outline) : Prop :=
  outlines.Pairwise fun earlier later =>
    ∀ first ∈ earlier.preorder, ∀ second ∈ later.preorder, first.node.number < second.node.number

mutual

/-- The numbers of an outline are those of its nodes, in another order. -/
theorem numbers_perm : ∀ outline : Outline,
    outline.numbers.Perm (outline.preorder.map (·.node.number))
  | .mk kind node detail symbol children => by
      rw [numbers, preorder, List.map_cons]
      exact List.perm_append_comm.trans ((numbersAll_perm children).cons _)

/-- The numbers of some outlines are those of their nodes, in another order. -/
theorem numbersAll_perm : ∀ outlines : List Outline,
    (numbersAll outlines).Perm ((preorderAll outlines).map (·.node.number))
  | [] => by simp [preorderAll]
  | first :: rest => by
      rw [numbersAll_cons, preorderAll, List.map_append]
      exact (numbers_perm first).append (numbersAll_perm rest)

end

theorem mem_numbers {outline part : Outline} (hpart : part ∈ outline.preorder) :
    part.node.number ∈ outline.numbers :=
  (numbers_perm outline).mem_iff.2 (List.mem_map_of_mem hpart)

theorem mem_numbersAll {outlines : List Outline} {part : Outline}
    (hpart : part ∈ preorderAll outlines) : part.node.number ∈ numbersAll outlines :=
  (numbersAll_perm outlines).mem_iff.2 (List.mem_map_of_mem hpart)

theorem numbersAll_eq (outlines : List Outline) :
    numbersAll outlines = outlines.flatMap (·.numbers) := by
  induction outlines with
  | nil => simp
  | cons first rest ih => rw [numbersAll_cons, ih, List.flatMap_cons]

theorem ascending_of_pairwise {outlines : List Outline}
    (hincreasing : (numbersAll outlines).Pairwise (· < ·)) : Ascending outlines := by
  rw [numbersAll_eq, List.pairwise_flatMap] at hincreasing
  refine hincreasing.2.imp ?_
  intro earlier later hless first hfirst second hsecond
  exact hless _ (mem_numbers hfirst) _ (mem_numbers hsecond)

mutual

/-- Numbers that increase when nodes are listed after those below them put each node after those
below it, and the nodes below it child by child. -/
theorem ordered_of_numbers : ∀ outline : Outline, outline.numbers.Pairwise (· < ·) →
    ∀ part ∈ outline.preorder, part.AfterBelow ∧ Ascending part.children
  | .mk kind node detail symbol children, hincreasing, part, hpart => by
      rw [numbers, List.pairwise_append] at hincreasing
      obtain ⟨hchildren, _, hless⟩ := hincreasing
      rw [preorder, List.mem_cons] at hpart
      rcases hpart with rfl | hpart
      · refine ⟨fun below hbelow => ?_, ascending_of_pairwise hchildren⟩
        exact hless _ (mem_numbersAll hbelow) _ (List.mem_singleton.2 rfl)
      · exact ordered_of_numbersAll children hchildren part hpart

theorem ordered_of_numbersAll : ∀ outlines : List Outline,
    (numbersAll outlines).Pairwise (· < ·) →
    ∀ part ∈ preorderAll outlines, part.AfterBelow ∧ Ascending part.children
  | [], _, part, hpart => by simp [preorderAll] at hpart
  | first :: rest, hincreasing, part, hpart => by
      rw [numbersAll_cons, List.pairwise_append] at hincreasing
      rw [preorderAll, List.mem_append] at hpart
      rcases hpart with hpart | hpart
      · exact ordered_of_numbers first hincreasing.1 part hpart
      · exact ordered_of_numbersAll rest hincreasing.2.1 part hpart

end

end Outline

end Tree

/-! ## Names are resolved where they stand -/

namespace Resolution

@[simp]
theorem node_name (chain : ScopeChain) (ident : Ident) :
    (name chain ident).tree.node = ident.node := by
  unfold name
  split <;> rfl

mutual

@[simp]
theorem nodes_expr (chain : ScopeChain) : ∀ whole : Expr,
    (expr chain whole).tree.nodes = whole.nodes
  | .int _ _ | .string _ _ | .bool _ _ => rfl
  | .name ident => by simp [expr]
  | .field _ base _ => by simp [expr, nodes_expr chain base]
  | .unary _ _ operand => by simp [expr, nodes_expr chain operand]
  | .binary _ _ left right => by simp [expr, nodes_expr chain left, nodes_expr chain right]
  | .assign _ target source => by simp [expr, nodes_expr chain target, nodes_expr chain source]
  | .call _ callee args => by simp [expr, nodes_exprs chain args]

@[simp]
theorem nodes_exprs (chain : ScopeChain) : ∀ whole : List Expr,
    Expr.nodesAll (exprs chain whole).tree = Expr.nodesAll whole
  | [] => rfl
  | first :: rest => congrArg₂ (· ++ ·) (nodes_expr chain first) (nodes_exprs chain rest)

end

theorem declareVariable_nodes (chain : ScopeChain) (decl : VarDecl) (type : Except Message Ty) :
    Ensures (declareVariable chain decl type) fun answer => answer.2.tree.nodes = decl.nodes := by
  unfold declareVariable
  dsimp only
  split
  · exact .pure rfl
  · split
    · exact .pure rfl
    · exact (Ensures.trivially _).bind fun _ _ => .pure rfl

theorem varDecls_nodes (chain : ScopeChain) (decls : List VarDecl) :
    Ensures (varDecls chain decls) fun answer =>
      answer.2.tree.flatMap (·.nodes) = decls.flatMap (·.nodes) := by
  induction decls generalizing chain with
  | nil => exact .ok rfl
  | cons first rest ih =>
      rw [varDecls]
      refine (declareVariable_nodes chain first _).bind fun head hhead => ?_
      refine (ih head.1).bind fun others hothers => .pure ?_
      simp [hhead, hothers]

/-- The statements of a block keep their nodes when a scope is opened and closed around them. -/
theorem enclosed_nodes {chain : ScopeChain} {body : List Stmt}
    (hbody : Ensures (stmts chain.enter body) fun answer =>
      Stmt.nodesAll answer.2.tree = Stmt.nodesAll body) :
    Ensures (enclosed chain (stmts · body)) fun answer =>
      Stmt.nodesAll answer.2.tree = Stmt.nodesAll body :=
  hbody.bind fun _ hanswer => (Ensures.trivially _).bind fun _ _ => .pure hanswer

mutual

theorem stmt_nodes : ∀ (chain : ScopeChain) (whole : Stmt),
    Ensures (stmt chain whole) fun answer => answer.2.tree.nodes = whole.nodes
  | chain, .declare decl => by
      rw [stmt]
      refine (declareVariable_nodes chain decl _).bind fun answer hanswer => .pure ?_
      simpa using hanswer
  | chain, .assign _ _ _ _ | chain, .increment _ _ | chain, .decrement _ _ | chain, .receive _ _
  | chain, .report _ _ | chain, .return _ none | chain, .return _ (some _)
  | chain, .call _ _ _ _ => by
      rw [stmt]
      exact .ok (by simp)
  | chain, .if _ _ body | chain, .while _ _ body => by
      rw [stmt]
      refine (enclosed_nodes (stmts_nodes chain.enter body)).bind fun answer hanswer => .pure ?_
      simp [hanswer]
  | chain, .ifElse _ _ body otherwise => by
      rw [stmt]
      refine (enclosed_nodes (stmts_nodes chain.enter body)).bind fun first hfirst => ?_
      refine (enclosed_nodes (stmts_nodes first.1.enter otherwise)).bind fun second hsecond => ?_
      exact .pure (by simp [hfirst, hsecond])

theorem stmts_nodes : ∀ (chain : ScopeChain) (whole : List Stmt),
    Ensures (stmts chain whole) fun answer => Stmt.nodesAll answer.2.tree = Stmt.nodesAll whole
  | chain, [] => by
      rw [stmts]
      exact .ok rfl
  | chain, first :: rest => by
      rw [stmts]
      refine (stmt_nodes chain first).bind fun head hhead => ?_
      refine (stmts_nodes head.1 rest).bind fun others hothers => .pure ?_
      exact congrArg₂ (· ++ ·) hhead hothers

end

theorem fields_nodes (names apart : ScopeChain) (decls : List VarDecl) :
    Ensures (fields names apart decls) fun answer =>
      answer.2.tree.flatMap (·.nodes) = decls.flatMap (·.nodes) := by
  induction decls generalizing apart with
  | nil => exact .ok rfl
  | cons first rest ih =>
      rw [fields]
      split
      · exact .pure rfl
      · refine (declareVariable_nodes apart first _).bind fun head hhead => ?_
        dsimp only
        split
        · refine (ih head.1).bind fun others hothers => .pure ?_
          simp [hhead, hothers]
        · exact .pure (by simp [hhead])

theorem recordDecl_nodes (state : State) (decl : RecordDecl) :
    Ensures (recordDecl state decl) fun answer =>
      (Decl.record answer.2.tree).nodes = (Decl.record decl).nodes := by
  unfold recordDecl
  split
  · exact .pure rfl
  · refine (fields_nodes state.chain _ decl.fields).bind fun members hmembers => ?_
    dsimp only
    split
    · exact .pure (by simp [hmembers])
    · refine (Ensures.trivially _).bind fun _ _ => ?_
      split
      · exact .pure (by simp [hmembers])
      · exact (Ensures.trivially _).bind fun _ _ => .pure (by simp [hmembers, bindTo])

theorem fnDecl_nodes (chain : ScopeChain) (decl : FnDecl) :
    Ensures (fnDecl chain decl) fun answer =>
      (Decl.fn answer.2.tree).nodes = (Decl.fn decl).nodes := by
  unfold fnDecl
  refine (varDecls_nodes chain.enter decl.formals).bind fun formals hformals => ?_
  dsimp only
  split
  all_goals
    refine (Ensures.trivially _).bind fun outside _ => ?_
    refine (Ensures.trivially _).bind fun inside _ => ?_
    refine (stmts_nodes inside decl.body).bind fun body hbody => ?_
    exact (Ensures.trivially _).bind fun _ _ => .pure (by simp [hformals, hbody, bindTo])

theorem decl_nodes (state : State) (whole : Decl) :
    Ensures (decl state whole) fun answer => answer.2.tree.nodes = whole.nodes := by
  cases whole with
  | var varDecl =>
      exact (declareVariable_nodes state.chain varDecl _).bind fun _ hanswer =>
        .pure (by simpa using hanswer)
  | record record => exact (recordDecl_nodes state record).bind fun _ hanswer => .pure hanswer
  | fn fn => exact (fnDecl_nodes state.chain fn).bind fun _ hanswer => .pure hanswer

theorem decls_nodes (state : State) (whole : List Decl) :
    Ensures (decls state whole) fun answer =>
      answer.2.tree.flatMap (·.nodes) = whole.flatMap (·.nodes) := by
  induction whole generalizing state with
  | nil => exact .ok rfl
  | cons first rest ih =>
      rw [decls]
      refine (decl_nodes state first).bind fun head hhead => ?_
      refine (ih head.1).bind fun others hothers => .pure ?_
      simp [hhead, hothers]

/-- Resolving the names of a program changes none of its nodes, whatever mistakes are found. -/
theorem program_nodes (state : State) (whole : Program) :
    Ensures (program state whole) fun answer => answer.2.tree.nodes = whole.nodes := by
  unfold program
  refine (decls_nodes _ whole.decls).bind fun answer hanswer => ?_
  refine (Ensures.trivially _).bind fun _ _ => .pure ?_
  simp [hanswer]

end Resolution

/-! ## Marks leave the numbers alone -/

namespace Typing

/-- The numbers of some nodes, in their order. -/
abbrev numbersOf (nodes : List Node) : List Nat := nodes.map (·.number)

@[simp]
theorem number_settle (node : Node) (meaning : Meaning) :
    (node.settle meaning).number = node.number := rfl

@[simp]
theorem numbersOf_settle (whole : Expr) (meaning : Meaning) :
    numbersOf (whole.settle meaning).nodes = numbersOf whole.nodes := by
  obtain ⟨below, hbefore, hafter⟩ := whole.nodes_settle meaning
  simp [numbersOf, hbefore, hafter]

@[simp]
theorem numbersOf_judge (tree : Expr) (meaning : Meaning) (messages : List Message) :
    numbersOf (judge tree meaning messages).tree.nodes = numbersOf tree.nodes :=
  numbersOf_settle tree meaning

theorem numbersOf_judgeField (node : Node) (base : Judged) (selector : Ident) :
    numbersOf (judgeField node base selector).tree.nodes =
      numbersOf (Expr.field node base.tree selector).nodes := by
  unfold judgeField
  dsimp only
  split
  · split <;> rw [numbersOf_judge]
  · split <;> rw [numbersOf_judge]

theorem numbersOf_comparand (operand : Judged) :
    numbersOf (comparand operand).tree.nodes = numbersOf operand.tree.nodes := by
  unfold comparand
  split
  · rfl
  · exact numbersOf_settle _ _

theorem numbersOf_judgeBinary (node : Node) (op : BinaryOp) (left right : Judged) :
    numbersOf (judgeBinary node op left right).tree.nodes =
      numbersOf (Expr.binary node op left.tree right.tree).nodes := by
  cases op with
  | plus | minus | times | divide | and | or | equal | notEqual => exact numbersOf_judge _ _ _
  | less | lessEqual | greater | greaterEqual =>
      refine (numbersOf_settle
        (.binary node _ (comparand left).tree (comparand right).tree) _).trans ?_
      have hleft := numbersOf_comparand left
      have hright := numbersOf_comparand right
      simp only [numbersOf] at hleft hright
      simp [numbersOf, hleft, hright]

mutual

theorem expr_numbers : ∀ whole : Expr,
    Ensures (expr whole) fun judged => numbersOf judged.tree.nodes = numbersOf whole.nodes
  | .int _ _ | .string _ _ | .bool _ _ => .ok (numbersOf_judge _ _ _)
  | .name _ => (Ensures.trivially _).bind fun _ _ => .pure (numbersOf_judge _ _ _)
  | .field _ base _ => by
      rw [expr]
      refine (expr_numbers base).bind fun judged hjudged => .pure ?_
      rw [numbersOf_judgeField]
      simp_all [numbersOf]
  | .unary _ _ operand => by
      rw [expr]
      refine (expr_numbers operand).bind fun judged hjudged => .pure ?_
      refine (numbersOf_judge _ _ _).trans ?_
      simp_all [numbersOf]
  | .binary _ _ left right => by
      rw [expr]
      refine (expr_numbers left).bind fun first hfirst => ?_
      refine (expr_numbers right).bind fun second hsecond => .pure ?_
      rw [numbersOf_judgeBinary]
      simp_all [numbersOf]
  | .assign _ target source => by
      rw [expr]
      refine (expr_numbers target).bind fun first hfirst => ?_
      refine (expr_numbers source).bind fun second hsecond => .pure ?_
      refine (numbersOf_judge _ _ _).trans ?_
      simp_all [numbersOf]
  | .call _ callee args => by
      rw [expr]
      refine (exprs_numbers args).bind fun judged hjudged => ?_
      refine (Ensures.trivially _).bind fun found _ => .pure ?_
      refine (numbersOf_judge _ _ _).trans ?_
      simp_all [numbersOf]

theorem exprs_numbers : ∀ whole : List Expr,
    Ensures (exprs whole) fun judged =>
      numbersOf (Expr.nodesAll (judged.map (·.tree))) = numbersOf (Expr.nodesAll whole)
  | [] => .ok rfl
  | first :: rest => by
      rw [exprs]
      refine (expr_numbers first).bind fun head hhead => ?_
      refine (exprs_numbers rest).bind fun others hothers => .pure ?_
      simp_all [numbersOf, Expr.nodesAll]

end

theorem varDecl_numbers (decl : VarDecl) :
    Ensures (varDecl decl) fun answer => numbersOf answer.nodes = numbersOf decl.nodes := by
  unfold varDecl
  split
  · exact .error
  · exact .ok rfl

mutual

theorem stmt_numbers (result : Ty) : ∀ whole : Stmt,
    Ensures (stmt result whole) fun checked =>
      numbersOf checked.tree.nodes = numbersOf whole.nodes
  | .declare decl => by
      rw [stmt]
      refine (varDecl_numbers decl).bind fun answer hanswer => .pure ?_
      simpa using hanswer
  | .assign _ _ target source => by
      rw [stmt]
      refine (expr_numbers target).bind fun first hfirst => ?_
      refine (expr_numbers source).bind fun second hsecond => .pure ?_
      simp_all [numbersOf]
  | .increment _ used | .decrement _ used | .receive _ used | .report _ used
  | .return _ (some used) => by
      rw [stmt]
      refine (expr_numbers used).bind fun judged hjudged => .pure ?_
      simp_all [numbersOf]
  | .return _ none => by
      rw [stmt]
      split <;> exact .ok (by simp)
  | .call _ _ callee args => by
      rw [stmt]
      refine (exprs_numbers args).bind fun judged hjudged => ?_
      refine (Ensures.trivially _).bind fun found _ => .pure ?_
      simp_all [numbersOf]
  | .if _ cond body | .while _ cond body => by
      rw [stmt]
      refine (expr_numbers cond).bind fun judged hjudged => ?_
      refine (stmts_numbers result body).bind fun checked hchecked => .pure ?_
      simp_all [numbersOf]
  | .ifElse _ cond body otherwise => by
      rw [stmt]
      refine (expr_numbers cond).bind fun judged hjudged => ?_
      refine (stmts_numbers result body).bind fun first hfirst => ?_
      refine (stmts_numbers result otherwise).bind fun second hsecond => .pure ?_
      simp_all [numbersOf]

theorem stmts_numbers (result : Ty) : ∀ whole : List Stmt,
    Ensures (stmts result whole) fun checked =>
      numbersOf (Stmt.nodesAll checked.tree) = numbersOf (Stmt.nodesAll whole)
  | [] => .ok rfl
  | first :: rest => by
      rw [stmts]
      refine (stmt_numbers result first).bind fun head hhead => ?_
      refine (stmts_numbers result rest).bind fun others hothers => .pure ?_
      simp_all [numbersOf, Stmt.nodesAll]

end

theorem formals_numbers : ∀ (decls : List VarDecl) (types : List Ty),
    numbersOf ((formals decls types).flatMap (·.nodes)) = numbersOf (decls.flatMap (·.nodes))
  | [], _ => by rw [formals]; simp
  | _ :: _, [] => by rw [formals]; simp
  | decl :: decls, type :: types => by
      have hrest := formals_numbers decls types
      rw [formals]
      simp_all [numbersOf, VarDecl.nodes]

theorem fnDecl_numbers (whole : FnDecl) :
    Ensures (fnDecl whole) fun checked =>
      numbersOf (Decl.fn checked.tree).nodes = numbersOf (Decl.fn whole).nodes := by
  unfold fnDecl
  split
  · exact .error
  · split
    next params result _ =>
      refine (stmts_numbers result whole.body).bind fun body hbody => .pure ?_
      have hformals := formals_numbers whole.formals params
      simp_all [numbersOf]
    next => exact .error

theorem decl_numbers (whole : Decl) :
    Ensures (decl whole) fun checked => numbersOf checked.tree.nodes = numbersOf whole.nodes := by
  cases whole with
  | var varDecl =>
      exact (varDecl_numbers varDecl).bind fun answer hanswer => .pure (by simpa using hanswer)
  | record record => exact .ok (by simp)
  | fn fn =>
      exact (fnDecl_numbers fn).bind fun _ hanswer => .pure hanswer

theorem decls_numbers (whole : List Decl) :
    Ensures (decls whole) fun checked =>
      numbersOf (checked.tree.flatMap (·.nodes)) = numbersOf (whole.flatMap (·.nodes)) := by
  induction whole with
  | nil => exact .ok rfl
  | cons first rest ih =>
      rw [decls]
      refine (decl_numbers first).bind fun head hhead => ?_
      refine ih.bind fun others hothers => .pure ?_
      simp_all [numbersOf]

/-- Checking the types in a program changes none of the numbers, whatever mistakes are found. -/
theorem check_numbers (whole : Program) :
    Ensures (check whole) fun checked => numbersOf checked.tree.nodes = numbersOf whole.nodes := by
  unfold check
  refine (decls_numbers whole.decls).bind fun checked hchecked => .pure ?_
  simp_all [numbersOf]

end Typing

/-! ## The numbers of a parsed program -/

namespace Tree

theorem number_of_parse {stream : TokenStream} {program : Program}
    (hparse : (parse stream).program = some program) : program.node.number = 0 := by
  have hprogram := program_of_parse hparse
  unfold Parser.program at hprogram
  obtain ⟨first, _, hprogram⟩ := exists_of_bind_eq_ok hprogram
  obtain ⟨answer, _, hprogram⟩ := exists_of_bind_eq_ok hprogram
  cases hprogram
  rfl

/-- The numbers in the declarations of a parsed program increase when nodes are listed after those
below them. -/
theorem pairwise_numbers_of_parse {stream : TokenStream} {program : Program}
    (hparse : (parse stream).program = some program) :
    (Outline.numbersAll (program.decls.map (·.outline))).Pairwise (· < ·) := by
  rw [(parse_numbers hparse).1.2]
  exact List.pairwise_lt_range'

theorem numbers_perm_range_of_parse {stream : TokenStream} {program : Program}
    (hparse : (parse stream).program = some program) :
    (program.nodes.map (·.number)).Perm (List.range program.nodeCount) := by
  obtain ⟨hpos, hnumbers⟩ := (parse_numbers hparse).1
  have hperm := Outline.numbersAll_perm (program.decls.map (·.outline))
  rw [hnumbers] at hperm
  have hnodes : program.nodes.map (·.number) = 0 ::
      (Outline.preorderAll (program.decls.map (·.outline))).map (·.node.number) := by
    rw [← number_of_parse hparse, Program.nodes, Outline.nodes, List.map_map]
    rfl
  have hrange : List.range program.nodeCount = 0 :: List.range' 1 (program.nodeCount - 1) := by
    rw [List.range_eq_range', ← Nat.sub_add_cancel hpos, List.range'_succ]
    rfl
  rw [hnodes, hrange]
  exact hperm.symm.cons 0

/-- The numbers that have an entry in a table of meanings are taken from those of the nodes. -/
theorem numbers_of_entries_sublist (parts : List Outline) :
    ((parts.filterMap fun part => part.node.meaning.map (part.node.number, ·)).map (·.1)).Sublist
      (parts.map (·.node.number)) := by
  induction parts with
  | nil => exact .slnil
  | cons first rest ih =>
      rw [List.filterMap_cons, List.map_cons]
      cases first.node.meaning with
      | none => exact ih.cons _
      | some meaning => exact ih.cons_cons _

/-- If the numbers of the nodes of a program are distinct, there is at most one entry for each of
them in its table of meanings. -/
theorem Program.nodup_meanings {program : Program}
    (hdistinct : (program.nodes.map (·.number)).Nodup) : (program.meanings.map (·.1)).Nodup := by
  rw [Program.nodes, Outline.nodes, List.map_map] at hdistinct
  rw [Program.meanings, ((List.mergeSort_perm _ _).map _).nodup_iff]
  exact hdistinct.sublist (numbers_of_entries_sublist program.outline.preorder)

/-- Nodes are numbered densely, from the leaves up. The nodes of a text that is parsed have the
numbers below their count, each once, and the program itself has number zero. Any other node has a
larger number than all nodes below it, and all that is at or below a node has smaller numbers than
what is at or below its later siblings. Resolving the names of the program and checking its types
leave the numbers alone, so no two nodes share an entry in the table of meanings. -/
theorem parse_postorder (bytes : List UInt8) (program : Program)
    (hparse : (parse (.ofText (Text.Utf8.decode bytes))).program = some program) :
    (program.nodes.map (·.number)).Perm (List.range program.nodeCount) ∧
      program.node.number = 0 ∧
      (∀ decl ∈ program.decls, ∀ part ∈ decl.outline.preorder, part.AfterBelow) ∧
      (∀ part ∈ program.outline.preorder, Outline.Ascending part.children) ∧
      ∀ registry state resolved checked, resolve registry program = .ok (state, resolved) →
        check resolved.tree = .ok checked →
          checked.tree.nodes.map (·.number) = program.nodes.map (·.number) ∧
            (checked.tree.meanings.map (·.1)).Nodup := by
  have hperm := numbers_perm_range_of_parse hparse
  have hincreasing := pairwise_numbers_of_parse hparse
  have hordered := Outline.ordered_of_numbersAll _ hincreasing
  refine ⟨hperm, number_of_parse hparse, ?_, ?_, ?_⟩
  · intro decl hdecl part hpart
    refine (hordered part ?_).1
    rw [Outline.preorderAll_eq, List.flatMap_map]
    exact List.mem_flatMap.2 ⟨decl, hdecl, hpart⟩
  · intro part hpart
    rw [Program.outline, Outline.plain, Outline.preorder, List.mem_cons] at hpart
    rcases hpart with rfl | hpart
    · exact Outline.ascending_of_pairwise hincreasing
    · exact (hordered part hpart).2
  · intro registry state resolved checked hresolve hcheck
    have hresolved := Resolution.program_nodes _ program _ hresolve
    have hchecked := Typing.check_numbers resolved.tree checked hcheck
    have hsame : checked.tree.nodes.map (·.number) = program.nodes.map (·.number) :=
      hchecked.trans (congrArg Typing.numbersOf hresolved)
    exact ⟨hsame, Program.nodup_meanings (hsame ▸ hperm.nodup_iff.2 List.nodup_range)⟩

/-- A program with parentheses, which leave no node, and a mistake. -/
def numberedBytes : List UInt8 :=
  Text.Utf8.encode ("record P \x7b int x; \x7d int f(int a) \x7b return (a); \x7d " ++
    "void main() \x7b if (true) \x7b report -f(1 + true); \x7d \x7d").toList

/-- The number of nodes of a text that is parsed, if its types can be checked as well. -/
def checkedCount? (bytes : List UInt8) : Option Nat := do
  let program ← (parse (.ofText (Text.Utf8.decode bytes))).program
  let (_, resolved) ← (resolve {} program).toOption
  let _ ← (check resolved.tree).toOption
  return program.nodeCount

theorem parse_postorder_numbered :
    ∃ program state resolved checked,
      (parse (.ofText (Text.Utf8.decode numberedBytes))).program = some program ∧
      resolve {} program = .ok (state, resolved) ∧ check resolved.tree = .ok checked ∧
      program.nodeCount = 26 ∧
      (program.nodes.map (·.number)).Perm (List.range program.nodeCount) ∧
      program.node.number = 0 ∧
      (∀ decl ∈ program.decls, ∀ part ∈ decl.outline.preorder, part.AfterBelow) ∧
      (∀ part ∈ program.outline.preorder, Outline.Ascending part.children) ∧
      checked.tree.nodes.map (·.number) = program.nodes.map (·.number) ∧
      (checked.tree.meanings.map (·.1)).Nodup := by
  have hcount : checkedCount? numberedBytes = some 26 := by decide +kernel
  unfold checkedCount? at hcount
  cases hparse : (parse (.ofText (Text.Utf8.decode numberedBytes))).program with
  | none => simp [hparse] at hcount
  | some program =>
      cases hresolve : resolve {} program with
      | error => simp [hparse, hresolve, Except.toOption] at hcount
      | ok answer =>
          obtain ⟨state, resolved⟩ := answer
          cases hcheck : check resolved.tree with
          | error => simp [hparse, hresolve, hcheck, Except.toOption] at hcount
          | ok checked =>
              simp [hparse, hresolve, hcheck, Except.toOption] at hcount
              obtain ⟨hperm, hzero, hbelow, hsiblings, hkept⟩ := parse_postorder _ program hparse
              exact ⟨program, state, resolved, checked, rfl, hresolve, hcheck, hcount, hperm, hzero,
                hbelow, hsiblings, hkept {} state resolved checked hresolve hcheck⟩

end Tree

end Shanty
