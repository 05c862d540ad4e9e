/-
# The addresses of fields

A field of a variable is reached step by step: each step starts from a record, adds the offset of one
of its fields and keeps the address in a temporary. Where the temporary points to can be told from the
code in front: it is so many bytes behind the start of a variable, and what lies there is of the type of
the field. On machines with smaller words all offsets are scaled, so a step goes less far there.

Code that stems from an accepted program computes no other addresses. It stays inside of the variable
that it started from as long as the sizes of the types of the program can be told.
-/

import Shanty.Proofs.Acceptance.Sizes
import Shanty.Proofs.Code.Fitting.Programs
import Shanty.Proofs.Code.Shape

namespace Shanty.Code

open Shanty.Tree (Expr Stmt Ident Node FnDecl)
open Shanty.Acceptance

/-! ## What addresses stand for -/

/-- The computation of the address of a field. -/
structure Access where
  target : Temp
  base : Operand
  /-- The offset of the field, as it is written. -/
  offset : String

/-- The address that an instruction computes. -/
def Instr.access? : Instr → Option Access
  | .index target base offset => some ⟨target, base, offset⟩
  | _ => none

/-- The addresses that some quads compute, in the order of the code. -/
def accesses (quads : List Quad) : List Access := quads.filterMap (·.instr.access?)

@[simp]
theorem accesses_nil : accesses [] = [] := rfl

@[simp]
theorem accesses_append (front back : List Quad) :
    accesses (front ++ back) = accesses front ++ accesses back :=
  List.filterMap_append

theorem mem_accesses {quads : List Quad} {access : Access} :
    access ∈ accesses quads ↔
      ∃ quad ∈ quads, quad.instr = .index access.target access.base access.offset := by
  obtain ⟨target, base, offset⟩ := access
  rw [accesses, List.mem_filterMap]
  refine exists_congr fun quad => and_congr_right fun _ => ?_
  cases quad.instr <;> simp [Instr.access?]

/-- An operand stands for what lies at some number of bytes behind the start of a variable and has some
type. A variable stands for itself, and an address for a field of what it was computed from. -/
inductive Selects (scale : Int64 → Int64) (symbols : List Symbol) :
    List Access → Operand → Variable → Int → Ty → Prop
  | whole {earlier : List Access} {var : Variable} {symbol : Symbol} :
      symbol ∈ symbols → var.symbol = symbol.number →
      Selects scale symbols earlier (.var var) var 0 symbol.type
  | field {before after : List Access} {access : Access} {root : Variable} {start : Int}
      {record : String} {size : Int64} {fields : List (String × Ty)} {field : Ty.Field} :
      Selects scale symbols before access.base root start (.record record size fields) →
      field ∈ Ty.layout fields → Text.readInt64? access.offset = some field.offset.toInt →
      Selects scale symbols (before ++ access :: after) (.address access.target) root
        (start + (scale field.offset).toInt) field.type

section Selects

variable {scale : Int64 → Int64} {symbols : List Symbol} {earlier : List Access}
  {operand : Operand} {root : Variable} {start : Int} {type : Ty}

theorem Selects.append (hselects : Selects scale symbols earlier operand root start type)
    (later : List Access) : Selects scale symbols (earlier ++ later) operand root start type := by
  cases hselects with
  | whole hmem hsymbol => exact .whole hmem hsymbol
  | field hbase hfield hoffset =>
      rw [List.append_assoc, List.cons_append]
      exact .field hbase hfield hoffset

theorem Selects.prepend (hselects : Selects scale symbols earlier operand root start type)
    (front : List Access) : Selects scale symbols (front ++ earlier) operand root start type := by
  induction hselects with
  | whole hmem hsymbol => exact .whole hmem hsymbol
  | field _ hfield hoffset ih =>
      rw [← List.append_assoc]
      exact .field ih hfield hoffset

/-- A way to scale sizes that keeps what lies inside of something else there. -/
def Fair (scale : Int64 → Int64) : Prop :=
  ∀ offset size whole : Int64, 0 ≤ offset.toInt → offset.toInt + size.toInt ≤ whole.toInt →
    0 ≤ size.toInt → 0 ≤ (scale offset).toInt ∧
      (scale offset).toInt + (scale size).toInt ≤ (scale whole).toInt

/-- What an operand stands for lies inside of a variable. -/
theorem Selects.inside {registry : Registry} (hcoherent : registry.Coherent) (hfair : Fair scale)
    (hfits : ∀ symbol ∈ symbols, symbol.Fits registry)
    (hsizes : ∀ symbol ∈ symbols, symbol.type.bytes < 2 ^ 63)
    (hselects : Selects scale symbols earlier operand root start type) :
    ∃ symbol ∈ symbols, root.symbol = symbol.number ∧ 0 ≤ start ∧
      start + (scale type.size).toInt ≤ (scale symbol.type.size).toInt ∧
      (type.isRecord = true → registry.Holds type ∧ type.bytes < 2 ^ 63) := by
  induction hselects with
  | @whole _ _ symbol hmem hsymbol =>
      refine ⟨symbol, hmem, hsymbol, Int.le_refl 0, by omega, fun hrecord => ?_⟩
      refine ⟨?_, hsizes symbol hmem⟩
      cases hfits symbol hmem with
      | var _ hholds => exact hholds
      | fn _ htype => rw [htype] at hrecord; cases hrecord
      | record _ hholds => exact hholds
  | @field _ _ _ _ start _ size _ field _ hfield _ ih =>
      obtain ⟨symbol, hmem, hsymbol, hstart, hend, hrecord⟩ := ih
      obtain ⟨hholds, hbytes⟩ := hrecord rfl
      obtain ⟨hholds', hbytes', hoffset, hinside⟩ :=
        Registry.field_inside hcoherent hholds hbytes hfield
      have hsize := Registry.toInt_size_of_holds hcoherent hholds' hbytes'
      obtain ⟨hoffset', hinside'⟩ := hfair field.offset field.type.size size hoffset hinside (by omega)
      change start + (scale size).toInt ≤ _ at hend
      exact ⟨symbol, hmem, hsymbol, by omega, by omega, fun _ => ⟨hholds', hbytes'⟩⟩

end Selects

/-! ## Lowering -/

/-- The addresses that some code computes are kept in temporaries with different numbers between two
bounds. -/
structure Numbered (low high : Nat) (code : List Quad) : Prop where
  le : low ≤ high
  within : ∀ access ∈ accesses code, low ≤ access.target.number ∧ access.target.number < high
  nodup : ((accesses code).map (·.target.number)).Nodup

/-- Code that computes the addresses of fields and no others. -/
structure Selecting (scale : Int64 → Int64) (symbols : List Symbol) (low high : Nat)
    (code : List Quad) : Prop extends Numbered low high code where
  selects : ∀ access ∈ accesses code, ∃ root start type,
    Selects scale symbols (accesses code) (.address access.target) root start type

section Selecting

variable {scale : Int64 → Int64} {symbols : List Symbol} {low middle high : Nat}
  {front back code : List Quad}

theorem Numbered.append (hfront : Numbered low middle front) (hback : Numbered middle high back) :
    Numbered low high (front ++ back) where
  le := Nat.le_trans hfront.le hback.le
  within := by
    have hle := hfront.le
    have hle' := hback.le
    rw [accesses_append, List.forall_mem_append]
    refine ⟨fun access hmem => ?_, fun access hmem => ?_⟩
    · have hbounds := hfront.within access hmem
      omega
    · have hbounds := hback.within access hmem
      omega
  nodup := by
    rw [accesses_append, List.map_append, List.nodup_append]
    refine ⟨hfront.nodup, hback.nodup, ?_⟩
    intro number hnumber other hother
    obtain ⟨access, hmem, rfl⟩ := List.mem_map.1 hnumber
    obtain ⟨access', hmem', rfl⟩ := List.mem_map.1 hother
    have hbelow := hfront.within access hmem
    have habove := hback.within access' hmem'
    omega

namespace Selecting

theorem none (hle : low ≤ high) (hnone : accesses code = []) :
    Selecting scale symbols low high code where
  le := hle
  within := by simp [hnone]
  nodup := by simp [hnone]
  selects := by simp [hnone]

theorem append (hfront : Selecting scale symbols low middle front)
    (hback : Selecting scale symbols middle high back) :
    Selecting scale symbols low high (front ++ back) where
  toNumbered := hfront.toNumbered.append hback.toNumbered
  selects := by
    rw [accesses_append, List.forall_mem_append]
    constructor
    · intro access hmem
      obtain ⟨root, start, type, hselects⟩ := hfront.selects access hmem
      exact ⟨root, start, type, hselects.append _⟩
    · intro access hmem
      obtain ⟨root, start, type, hselects⟩ := hback.selects access hmem
      exact ⟨root, start, type, hselects.prepend _⟩

/-- More code that computes no addresses. -/
theorem extend (hcode : Selecting scale symbols low middle code) (hnone : accesses back = [])
    (hle : middle ≤ high) : Selecting scale symbols low high (code ++ back) :=
  hcode.append (.none hle hnone)

/-- Tests compute no addresses besides those in their conditions. -/
theorem ifZero (hcode : Selecting scale symbols low high code) (operand : Operand) (label : Label) :
    Selecting scale symbols low high (code ++ [.plain (.ifZero operand label)]) :=
  hcode.extend rfl (Nat.le_refl _)

/-- The address of a field is computed from that of its record. -/
theorem field {root : Variable} {start : Int} {record : String} {size : Int64}
    {fields : List (String × Ty)} {field : Ty.Field} {temp : Temp} {base : Operand}
    (hcode : Selecting scale symbols low temp.number code)
    (hbase : Selects scale symbols (accesses code) base root start (.record record size fields))
    (hfield : field ∈ Ty.layout fields) {index : Quad}
    (hindex : index = .plain (.index temp base (toString field.offset))) :
    Selecting scale symbols low (temp.number + 1) (code ++ [index]) ∧
      Selects scale symbols (accesses (code ++ [index])) (.address temp) root
        (start + (scale field.offset).toInt) field.type := by
  subst hindex
  have haccesses : accesses [.plain (.index temp base (toString field.offset))] =
      [⟨temp, base, toString field.offset⟩] := rfl
  have hnumbered : Numbered temp.number (temp.number + 1)
      [.plain (.index temp base (toString field.offset))] := by
    refine ⟨Nat.le_succ _, ?_, ?_⟩ <;> simp [haccesses]
  have hselects : Selects scale symbols (accesses code ++ [⟨temp, base, toString field.offset⟩])
      (.address temp) root (start + (scale field.offset).toInt) field.type :=
    @Selects.field _ _ _ _ ⟨temp, base, toString field.offset⟩ _ _ _ _ _ _ hbase hfield
      (Text.readInt64?_toString_word _)
  refine ⟨⟨hcode.toNumbered.append hnumbered, ?_⟩, ?_⟩
  · rw [accesses_append, haccesses, List.forall_mem_append, List.forall_mem_singleton]
    refine ⟨fun access hmem => ?_, _, _, _, hselects⟩
    obtain ⟨root, start, type, hselects⟩ := hcode.selects access hmem
    exact ⟨root, start, type, hselects.append _⟩
  · rw [accesses_append, haccesses]
    exact hselects

end Selecting

/-! ## Lowering -/

namespace Lowering

variable {tree : Tree.Program} {vars : List Nat}

/-- Handing over arguments and calling a function computes no addresses. -/
theorem accesses_call {callee : Ident} {args : List (Expr × Operand)} {draft draft' : Draft}
    {result : Option CallResult} (hrun : call callee args draft = .ok (result, code, draft')) :
    accesses code = [] ∧ accesses (fetch result) = [] := by
  obtain ⟨sets, hsets, hrun⟩ := exists_of_bind_eq_ok hrun
  obtain ⟨symbol, _, hrun⟩ := exists_of_bind_eq_ok hrun
  have hnone : accesses (sets ++ [.plain (.call symbol.name)]) = [] := by
    rw [accesses, List.filterMap_append, List.append_eq_nil_iff, List.filterMap_eq_nil_iff]
    refine ⟨fun quad hquad => ?_, rfl⟩
    have hphase := (passArgs_sets hsets quad hquad).2.1
    cases hinstr : quad.instr with
    | index => rw [hinstr] at hphase; cases hphase
    | _ => rfl
  have hfetch : accesses (fetch result) = [] := by
    cases result <;> rfl
  split at hrun <;> cases hrun <;> exact ⟨hnone, hfetch⟩

/-- A name is lowered to a variable with the number of its symbol. -/
theorem symbol_eq_of_visible? {draft : Draft} {ident : Ident} {symbol : Symbol}
    (hsymbol : ident.symbol = some symbol) {var : Variable}
    (hvisible : draft.visible? ident = some var) : var.symbol = symbol.number := by
  rw [Draft.visible?, hsymbol, Option.bind_some] at hvisible
  rcases Option.or_eq_some_iff.1 hvisible with hformal | ⟨_, hvisible⟩
  · simpa using List.find?_some hformal
  rcases Option.or_eq_some_iff.1 hvisible with hlocal | ⟨_, hglobal⟩
  · simpa using List.find?_some hlocal
  · simpa using List.find?_some hglobal

mutual

/-- The code of an accepted expression computes the addresses of fields. A place stands for a part of a
variable. -/
theorem expr_selects (scale : Int64 → Int64) : ∀ {expr : Expr} {type : Ty},
    GoodExpr tree vars expr type → (∀ part ∈ expr.parts, part.Settled symbols) →
      ∀ {draft draft' : Draft} {operand : Operand} {code : List Quad},
        Lowering.expr draft expr = .ok (operand, code, draft') →
          Selecting scale symbols draft.procedure.nextTemp draft'.procedure.nextTemp code ∧
            (expr.isPlace = true → ∃ root start,
              Selects scale symbols (accesses code) operand root start type)
  | _, _, .int _, _, _, _, _, _, hrun | _, _, .string _, _, _, _, _, _, hrun
  | _, _, .bool _, _, _, _, _, _, hrun => by
      rw [Lowering.expr] at hrun
      cases hrun
      exact ⟨.none (Nat.le_refl _) rfl, nofun⟩
  | _, _, .name _ hsymbol _, hsettled, _, _, _, _, hrun => by
      rw [Expr.parts, List.forall_mem_singleton] at hsettled
      rw [Lowering.expr] at hrun
      split at hrun
      next var hvisible =>
        cases hrun
        refine ⟨.none (Nat.le_refl _) rfl, fun _ => ⟨var, 0, ?_⟩⟩
        exact .whole (hsettled.2 _ hsymbol) (symbol_eq_of_visible? hsymbol hvisible)
      · cases hrun
  | _, _, .field _ hplace hbase hfield, hsettled, _, _, _, _, hrun => by
      rw [Expr.parts, List.forall_mem_cons] at hsettled
      rw [Lowering.expr] at hrun
      obtain ⟨⟨place, code, draft₁⟩, hrunBase, hrun⟩ := exists_of_bind_eq_ok hrun
      obtain ⟨offset, hoffset, hrun⟩ := exists_of_bind_eq_ok hrun
      rw [offsetOf_eq hbase hfield] at hoffset
      cases hoffset
      cases hrun
      obtain ⟨hcode, hselects⟩ := expr_selects scale hbase hsettled.2 hrunBase
      obtain ⟨root, start, hselects⟩ := hselects hplace
      obtain ⟨hcode', hselects'⟩ := @Selecting.field _ _ _ _ _ _ _ _ _ _ draft₁.newAddress.1 _ hcode
        hselects (List.mem_of_find?_eq_some hfield) _ rfl
      exact ⟨hcode', fun _ => ⟨_, _, hselects'⟩⟩
  | _, _, .unary _ _ hoperand, hsettled, _, _, _, _, hrun => by
      rw [Expr.parts, List.forall_mem_cons] at hsettled
      rw [Lowering.expr] at hrun
      obtain ⟨⟨source, code, draft₁⟩, hsource, hrun⟩ := exists_of_bind_eq_ok hrun
      dsimp only at hrun
      split at hrun
      · cases hrun
      obtain ⟨width, _, hrun⟩ := exists_of_bind_eq_ok hrun
      cases hrun
      exact ⟨(expr_selects scale hoperand hsettled.2 hsource).1.extend rfl (Nat.le_succ _), nofun⟩
  | _, _, .binary _ _ hleft hright, hsettled, _, _, _, _, hrun => by
      rw [Expr.parts, List.forall_mem_cons, List.forall_mem_append] at hsettled
      rw [Lowering.expr] at hrun
      obtain ⟨⟨first, firstCode, draft₁⟩, hfirst, hrun⟩ := exists_of_bind_eq_ok hrun
      obtain ⟨⟨second, secondCode, draft₂⟩, hsecond, hrun⟩ := exists_of_bind_eq_ok hrun
      dsimp only at hrun
      split at hrun
      · cases hrun
      obtain ⟨width, _, hrun⟩ := exists_of_bind_eq_ok hrun
      cases hrun
      have hboth := (expr_selects scale hleft hsettled.2.1 hfirst).1.append
        (expr_selects scale hright hsettled.2.2 hsecond).1
      exact ⟨hboth.extend rfl (Nat.le_succ _), nofun⟩
  | _, _, .assign _ _ _ htarget hsource, hsettled, _, _, _, _, hrun => by
      rw [Expr.parts, List.forall_mem_cons, List.forall_mem_append] at hsettled
      rw [Lowering.expr] at hrun
      obtain ⟨⟨value, sourceCode, draft₁⟩, hvalue, hrun⟩ := exists_of_bind_eq_ok hrun
      obtain ⟨⟨place, targetCode, draft₂⟩, hplace, hrun⟩ := exists_of_bind_eq_ok hrun
      cases hrun
      have hboth := (expr_selects scale hsource hsettled.2.2 hvalue).1.append
        (expr_selects scale htarget hsettled.2.1 hplace).1
      exact ⟨hboth.extend rfl (Nat.le_refl _), nofun⟩
  | _, _, .call _ _ _ _ _ hargs, hsettled, _, _, _, _, hrun => by
      rw [Expr.parts, List.forall_mem_cons] at hsettled
      rw [Lowering.expr] at hrun
      obtain ⟨⟨operands, argCode, draft₁⟩, hrunArgs, hrun⟩ := exists_of_bind_eq_ok hrun
      obtain ⟨⟨result, code, draft₂⟩, hcall, hrun⟩ := exists_of_bind_eq_ok hrun
      cases hrun
      obtain ⟨hcode, hfetch⟩ := accesses_call hcall
      have hgrows := (call_makes hcall).1
      have hargs' := exprs_select scale hargs hsettled.2 hrunArgs
      exact ⟨(hargs'.extend hcode hgrows.temps).extend hfetch (Nat.le_refl _), nofun⟩

/-- The code of accepted arguments computes the addresses of fields. -/
theorem exprs_select (scale : Int64 → Int64) : ∀ {args : List Expr} {params : List Ty},
    GoodExprs tree vars args params → (∀ part ∈ Expr.partsAll args, part.Settled symbols) →
      ∀ {draft draft' : Draft} {operands : List Operand} {code : List Quad},
        Lowering.exprs draft args = .ok (operands, code, draft') →
          Selecting scale symbols draft.procedure.nextTemp draft'.procedure.nextTemp code
  | _, _, .nil, _, _, _, _, _, hrun => by
      rw [Lowering.exprs] at hrun
      cases hrun
      exact .none (Nat.le_refl _) rfl
  | _, _, .cons hfirst hrest, hsettled, _, _, _, _, hrun => by
      rw [Expr.partsAll, List.forall_mem_append] at hsettled
      rw [Lowering.exprs] at hrun
      obtain ⟨⟨operand, code, draft₁⟩, hrunFirst, hrun⟩ := exists_of_bind_eq_ok hrun
      obtain ⟨⟨operands, moreCode, draft₂⟩, hrunRest, hrun⟩ := exists_of_bind_eq_ok hrun
      cases hrun
      exact (expr_selects scale hfirst hsettled.1 hrunFirst).1.append
        (exprs_select scale hrest hsettled.2 hrunRest)

end

/-- The code of an expression in front of quads that compute no addresses. -/
theorem expr_selects_extend (scale : Int64 → Int64) {expr : Expr} {type : Ty}
    (hgood : GoodExpr tree vars expr type) (hsettled : ∀ part ∈ expr.parts, part.Settled symbols)
    {draft draft' : Draft} {operand : Operand} {code quads : List Quad}
    (hrun : Lowering.expr draft expr = .ok (operand, code, draft')) (hnone : accesses quads = []) :
    Selecting scale symbols draft.procedure.nextTemp draft'.procedure.nextTemp (code ++ quads) :=
  (expr_selects scale hgood hsettled hrun).1.extend hnone (Nat.le_refl _)

theorem step_selects (scale : Int64 → Int64) {place : Expr} {type : Ty}
    (hgood : GoodExpr tree vars place type) (hsettled : ∀ part ∈ place.parts, part.Settled symbols)
    {op : BinaryOp} {draft draft' : Draft} {code : List Quad}
    (hrun : step op draft place = .ok (code, draft')) :
    Selecting scale symbols draft.procedure.nextTemp draft'.procedure.nextTemp code := by
  obtain ⟨⟨operand, code, draft₁⟩, hplace, hrun⟩ := exists_of_bind_eq_ok hrun
  cases hrun
  exact expr_selects_extend scale hgood hsettled hplace rfl

mutual

/-- The code of an accepted statement computes the addresses of fields. -/
theorem stmt_selects (scale : Int64 → Int64) {result : Ty} :
    ∀ {vars vars' : List Nat} {stmt : Stmt}, GoodStmt tree result vars stmt vars' →
      (∀ part ∈ stmt.exprs, part.Settled symbols) →
      ∀ {draft draft' : Draft} {code : List Quad}, Lowering.stmt draft stmt = .ok (code, draft') →
        Selecting scale symbols draft.procedure.nextTemp draft'.procedure.nextTemp code
  | _, _, _, .declare _ _, _, _, _, _, hrun => by
      rw [Lowering.stmt] at hrun
      obtain ⟨symbol, _, hrun⟩ := exists_of_bind_eq_ok hrun
      cases hrun
      exact .none (Nat.le_refl _) rfl
  | _, _, _, .assign hgood, hsettled, _, _, _, hrun => by
      rw [Lowering.stmt] at hrun
      obtain ⟨⟨operand, code, draft₁⟩, hassign, hrun⟩ := exists_of_bind_eq_ok hrun
      cases hrun
      exact (expr_selects scale hgood hsettled hassign).1
  | _, _, _, .increment _ hgood, hsettled, _, _, _, hrun
  | _, _, _, .decrement _ hgood, hsettled, _, _, _, hrun => by
      rw [Lowering.stmt] at hrun
      exact step_selects scale hgood hsettled hrun
  | _, _, _, .receive _ _ hgood, hsettled, _, _, _, hrun
  | _, _, _, .report _ hgood, hsettled, _, _, _, hrun
  | _, _, _, .returnValue hgood, hsettled, _, _, _, hrun => by
      rw [Lowering.stmt] at hrun
      obtain ⟨⟨operand, code, draft₁⟩, hexpr, hrun⟩ := exists_of_bind_eq_ok hrun
      obtain ⟨type, _, hrun⟩ := exists_of_bind_eq_ok hrun
      cases hrun
      exact expr_selects_extend scale hgood hsettled hexpr rfl
  | _, _, _, .returnNothing, _, _, _, _, hrun => by
      rw [Lowering.stmt] at hrun
      cases hrun
      exact .none (Nat.le_refl _) rfl
  | _, _, _, .call _ _ _ hargs, hsettled, _, _, _, hrun => by
      rw [Stmt.exprs, Expr.parts, List.forall_mem_cons] at hsettled
      rw [Lowering.stmt] at hrun
      obtain ⟨⟨operands, argCode, draft₁⟩, hrunArgs, hrun⟩ := exists_of_bind_eq_ok hrun
      obtain ⟨⟨result, code, draft₂⟩, hcall, hrun⟩ := exists_of_bind_eq_ok hrun
      cases hrun
      exact (exprs_select scale hargs hsettled.2 hrunArgs).extend (accesses_call hcall).1
        (call_makes hcall).1.temps
  | _, _, _, .if hgood hbody, hsettled, draft, _, _, hrun => by
      rw [Stmt.exprs, List.forall_mem_append] at hsettled
      rw [Lowering.stmt] at hrun
      obtain ⟨⟨operand, code, draft₁⟩, hcondition, hrun⟩ := exists_of_bind_eq_ok hrun
      obtain ⟨⟨bodyCode, draft₂⟩, hrunBody, hrun⟩ := exists_of_bind_eq_ok hrun
      cases hrun
      have htest := (expr_selects scale hgood hsettled.1 hcondition).1.ifZero operand
        draft₁.newLabel.1
      have hinside := block_selects scale hbody hsettled.2 hrunBody
      exact (htest.append hinside).extend rfl (Nat.le_refl _)
  | _, _, _, .ifElse hgood hbody hotherwise, hsettled, draft, _, _, hrun => by
      rw [Stmt.exprs, List.forall_mem_append, List.forall_mem_append] at hsettled
      rw [Lowering.stmt] at hrun
      obtain ⟨⟨operand, code, draft₁⟩, hcondition, hrun⟩ := exists_of_bind_eq_ok hrun
      obtain ⟨⟨bodyCode, draft₂⟩, hrunBody, hrun⟩ := exists_of_bind_eq_ok hrun
      obtain ⟨⟨otherwiseCode, draft₃⟩, hrunOtherwise, hrun⟩ := exists_of_bind_eq_ok hrun
      cases hrun
      have htest := (expr_selects scale hgood hsettled.1 hcondition).1.ifZero operand
        draft.newLabel.1
      have hleft := block_selects scale hbody hsettled.2.1 hrunBody
      have hright := block_selects scale hotherwise hsettled.2.2 hrunOtherwise
      exact (((htest.append hleft).extend rfl (Nat.le_refl _)).append hright).extend rfl (Nat.le_refl _)
  | _, _, _, .while hgood hbody, hsettled, draft, _, _, hrun => by
      rw [Stmt.exprs, List.forall_mem_append] at hsettled
      rw [Lowering.stmt] at hrun
      obtain ⟨⟨operand, code, draft₁⟩, hcondition, hrun⟩ := exists_of_bind_eq_ok hrun
      obtain ⟨⟨bodyCode, draft₂⟩, hrunBody, hrun⟩ := exists_of_bind_eq_ok hrun
      cases hrun
      have hhead : Selecting scale symbols draft.procedure.nextTemp draft.procedure.nextTemp
          [.landing draft.newLabel.1] := .none (Nat.le_refl _) rfl
      have htest := (expr_selects scale hgood hsettled.1 hcondition).1.ifZero operand
        draft.newLabel.2.newLabel.1
      have hinside := block_selects scale hbody hsettled.2 hrunBody
      rw [List.append_assoc [_] code]
      exact ((hhead.append htest).append hinside).extend rfl (Nat.le_refl _)

/-- The code of accepted statements computes the addresses of fields. -/
theorem block_selects (scale : Int64 → Int64) {result : Ty} :
    ∀ {vars vars' : List Nat} {stmts : List Stmt}, GoodStmts tree result vars stmts vars' →
      (∀ part ∈ Stmt.exprsAll stmts, part.Settled symbols) →
      ∀ {draft draft' : Draft} {code : List Quad},
        Lowering.block draft stmts = .ok (code, draft') →
          Selecting scale symbols draft.procedure.nextTemp draft'.procedure.nextTemp code
  | _, _, _, .nil, _, _, _, _, hrun => by
      rw [Lowering.block] at hrun
      cases hrun
      exact .none (Nat.le_refl _) rfl
  | _, _, _, .cons hfirst hrest, hsettled, _, _, _, hrun => by
      rw [Stmt.exprsAll, List.forall_mem_append] at hsettled
      rw [Lowering.block] at hrun
      obtain ⟨⟨code, draft₁⟩, hrunFirst, hrun⟩ := exists_of_bind_eq_ok hrun
      obtain ⟨⟨moreCode, draft₂⟩, hrunRest, hrun⟩ := exists_of_bind_eq_ok hrun
      cases hrun
      exact (stmt_selects scale hfirst hsettled.1 hrunFirst).append
        (block_selects scale hrest hsettled.2 hrunRest)

end

end Lowering

end Selecting

/-! ## Removing quads -/

/-- What a harmless test lets go computes no address. -/
theorem Peephole.Harmless.access?_eq_none {removes : Quad → Quad → Bool}
    (harmless : Peephole.Harmless removes) {quad next : Quad} (hremoves : removes quad next = true) :
    quad.instr.access? = none := by
  rcases harmless quad next hremoves with hnop | ⟨label, hlabel, _⟩
  · rw [hnop]
    rfl
  · cases hinstr : quad.instr with
    | index => rw [hinstr] at hlabel; cases hlabel
    | _ => rfl

/-- A sweep keeps all computations of addresses. -/
theorem accesses_sweep {removes : Quad → Quad → Bool} (harmless : Peephole.Harmless removes)
    (carried : List Label) (quads : List Quad) :
    accesses (Peephole.sweep removes carried quads) = accesses quads := by
  fun_induction Peephole.sweep removes carried quads with
  | case1 => rfl
  | case2 => rfl
  | case3 carried quad next rest hremoves ih =>
      have hnone := harmless.access?_eq_none hremoves
      rw [ih]
      exact (List.filterMap_cons_none (f := fun quad : Quad => quad.instr.access?) hnone).symm
  | case4 carried quad next rest _ ih =>
      have hboth := congrArg (accesses [quad] ++ ·) ih
      rwa [← accesses_append, ← accesses_append] at hboth

theorem Procedure.accesses_tail (procedure : Procedure) :
    accesses procedure.tail = accesses procedure.body := by
  rw [tail, accesses_append]
  exact List.append_nil _

theorem Procedure.accesses_sweep {removes : Quad → Quad → Bool}
    (harmless : Peephole.Harmless removes) (procedure : Procedure) :
    accesses (procedure.sweep removes).body = accesses procedure.body := by
  rw [← accesses_tail, sweep, tail_withTail (procedure.endsIn_tail.sweep removes),
    Code.accesses_sweep harmless, accesses_tail]

/-! ## Programs -/

/-- A procedure that computes the addresses of fields and no others, each in a temporary of its own. -/
def Procedure.Selecting (scale : Int64 → Int64) (symbols : List Symbol) (procedure : Procedure) :
    Prop :=
  ∃ low high, Code.Selecting scale symbols low high procedure.body

/-- A program with the variables of some symbols that computes the addresses of their fields. -/
structure Program.Selecting (scale : Int64 → Int64) (symbols : List Symbol) (program : Program) :
    Prop where
  globals : ∀ var ∈ program.globals, ∃ symbol ∈ symbols, var = .ofSymbol symbol
  vars : ∀ procedure ∈ program.procedures, ∀ var ∈ procedure.formals ++ procedure.locals,
    ∃ symbol ∈ symbols, var = .ofSymbol symbol
  procedures : ∀ procedure ∈ program.procedures, procedure.Selecting scale symbols

section Programs

variable {scale : Int64 → Int64} {symbols : List Symbol} {program : Program} {procedure : Procedure}

theorem Procedure.Selecting.sweep {removes : Quad → Quad → Bool}
    (harmless : Peephole.Harmless removes) (hselecting : procedure.Selecting scale symbols) :
    (procedure.sweep removes).Selecting scale symbols := by
  obtain ⟨low, high, hselecting⟩ := hselecting
  have heq := procedure.accesses_sweep harmless
  exact ⟨low, high, ⟨hselecting.le, heq ▸ hselecting.within, heq ▸ hselecting.nodup⟩,
    heq ▸ hselecting.selects⟩

theorem Program.Selecting.sweep {removes : Quad → Quad → Bool}
    (harmless : Peephole.Harmless removes) (hselecting : program.Selecting scale symbols) :
    (program.sweep removes).Selecting scale symbols where
  globals := hselecting.globals
  vars := List.forall_mem_map.2 hselecting.vars
  procedures := List.forall_mem_map.2 fun procedure hprocedure =>
    (hselecting.procedures procedure hprocedure).sweep harmless

/-- Optimizing a program keeps what its procedures compute addresses of. -/
theorem Program.Selecting.optimize (hselecting : program.Selecting scale symbols) :
    program.optimize.Selecting scale symbols :=
  Program.optimize_keeps (fun _ _ harmless hselecting => hselecting.sweep harmless) hselecting

theorem Lowering.accesses_receiveArgs (count position : Nat) (symbols : List Symbol) :
    accesses (receiveArgs count position symbols) = [] := by
  rw [accesses, List.filterMap_eq_nil_iff]
  intro quad hquad
  obtain ⟨_, _, _, hinstr⟩ := instr_of_mem_receiveArgs hquad
  rw [hinstr]
  rfl

/-- The procedures of an accepted program compute the addresses of fields and no others. -/
theorem selecting_of_lower (scale : Int64 → Int64) {tree : Tree.Program}
    (hgood : GoodDecls tree [] tree.decls) (hsettled : Settled tree) {code : Program}
    (hlower : lower tree = .ok code) : code.Selecting scale tree.declared := by
  obtain ⟨code', hlower', hcode⟩ := exists_lower_eq hgood
  rw [hlower] at hlower'
  cases hlower'
  have hmade := madeOf_lower hlower
  refine ⟨?_, ?_, ?_⟩
  · rw [hmade.globals, List.forall_mem_map]
    intro symbol hsymbol
    obtain ⟨decl, hdecl, hmem⟩ := List.mem_flatMap.1 hsymbol
    exact ⟨symbol, List.mem_flatMap.2 ⟨decl, hdecl, (globalSymbols_sublist decl).subset hmem⟩, rfl⟩
  · intro procedure hprocedure
    obtain ⟨decl, hmem, hmadeOf⟩ := exists_of_mem_right hmade.procedures hprocedure
    rw [hmadeOf.formals, hmadeOf.locals, ← List.map_append, List.forall_mem_map]
    intro symbol hsymbol
    refine ⟨symbol, List.mem_flatMap.2 ⟨_, mem_decls_of_function hmem, ?_⟩, rfl⟩
    exact List.mem_append_right _ hsymbol
  · intro procedure hprocedure
    obtain ⟨decl, hmem, _, htranslates⟩ := exists_of_mem_right hcode.procedures hprocedure
    cases htranslates with
    | @mk _ _ formals _ _ _ _ _ _ _ _ hgood _ hblock _ hbody _ _ _ =>
        have hexprs : ∀ part ∈ Stmt.exprsAll decl.body, part.Settled tree.declared :=
          fun part hpart => hsettled.exprs part
            (List.mem_flatMap.2 ⟨_, mem_decls_of_function hmem, hpart⟩)
        have hblock' := Lowering.block_selects scale hgood hexprs hblock
        have hall := (Selecting.none (Nat.le_refl _)
          (Lowering.accesses_receiveArgs formals.length 1 formals)).append hblock'
        rw [← hbody] at hall
        exact ⟨_, _, hall⟩

/-! ## Bounds -/

/-- Addresses are computed from variables that the procedure can refer to. -/
theorem Site.AllFit.base_mem {site : Site} {labels : List Label} {before after : Pending}
    {quads : List Quad} (hall : site.AllFit labels before quads after) :
    ∀ access ∈ accesses quads, ∀ var, access.base = .var var →
      var ∈ site.globals ∨ var ∈ site.vars := by
  intro access haccess var hbase
  obtain ⟨quad, hquad, hinstr⟩ := mem_accesses.1 haccess
  obtain ⟨front, back, rfl⟩ := List.append_of_mem hquad
  obtain ⟨middle, _, hrest⟩ := hall.exists_of_append
  cases hrest with
  | cons hfits _ =>
      rw [hinstr, hbase] at hfits
      cases hfits with
      | index _ hstores _ => exact hstores.1.1

theorem Selects.root_mem {earlier : List Access} {vars : List Variable}
    (hbases : ∀ access ∈ earlier, ∀ var, access.base = .var var → var ∈ vars) {operand : Operand}
    {root : Variable} {start : Int} {type : Ty}
    (hselects : Selects scale symbols earlier operand root start type) :
    operand = .var root ∨ root ∈ vars := by
  induction hselects with
  | whole => exact .inl rfl
  | @field before after access root _ _ _ _ _ _ _ _ ih =>
      rw [List.forall_mem_append, List.forall_mem_cons] at hbases
      exact .inr ((ih hbases.1).elim (hbases.2.1 root) id)

/-- What an address stands for lies inside of a variable that the procedure can refer to. -/
theorem Program.Selecting.inside (hselecting : program.Selecting scale symbols) (hfair : Fair scale)
    {registry : Registry} (hcoherent : registry.Coherent)
    (hfits : ∀ symbol ∈ symbols, symbol.Fits registry)
    (hsizes : ∀ symbol ∈ symbols, symbol.type.bytes < 2 ^ 63)
    (hnumbers : (symbols.map (·.number)).Nodup) (hprocedure : procedure ∈ program.procedures)
    (hfitting : procedure.Fitting program) {temp : Temp} {root : Variable} {start : Int} {type : Ty}
    (hselects : Selects scale symbols (accesses procedure.body) (.address temp) root start type) :
    root ∈ program.globals ++ (procedure.formals ++ procedure.locals) ∧ 0 ≤ start ∧
      start + (scale type.size).toInt ≤ (scale root.width).toInt := by
  obtain ⟨symbol, hmem, hsymbol, hstart, hend, _⟩ := hselects.inside hcoherent hfair hfits hsizes
  obtain ⟨last, hall⟩ := hfitting.quads
  have hbases := hall.base_mem
  rw [procedure.accesses_tail] at hbases
  have hroot : root ∈ program.globals ++ (procedure.formals ++ procedure.locals) := by
    refine (hselects.root_mem fun access haccess var hbase => ?_).resolve_left (by simp)
    exact List.mem_append.2 (hbases access haccess var hbase)
  refine ⟨hroot, hstart, ?_⟩
  obtain ⟨symbol', hmem', rfl⟩ : ∃ symbol ∈ symbols, root = .ofSymbol symbol :=
    (List.mem_append.1 hroot).elim (hselecting.globals root)
      (hselecting.vars procedure hprocedure root)
  obtain rfl := List.inj_on_of_nodup_map hnumbers hmem' hmem hsymbol
  exact hend

end Programs

end Shanty.Code
