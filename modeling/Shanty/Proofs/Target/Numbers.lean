/-
# Integers keep their value

An integer literal has one value from the source to the code that is emitted. It is the decimal value
of its digits, or the largest integer if that is exceeded, and it is what the tree has, what the code
has as a constant in decimal without zeros in front, what a machine loads and what a word of LLVM is.

A literal is not loaded everywhere. A jump that a constant decides beforehand needs no number, and
neither do the short forms of some operations.
-/

import Shanty.Proofs.Acceptance.Leaves
import Shanty.Proofs.Code.Accepted
import Shanty.Proofs.Code.Meaning
import Shanty.Proofs.Code.Numbers
import Shanty.Proofs.Target.Immediates
import Shanty.Proofs.Target.Llvm.Words
import Shanty.Proofs.Target.Machines
import Shanty.Proofs.Token.Integers

namespace Shanty

open Code (Procedure Program constantsIn constantsOf)
open Token (maxInt runsOf)

/-! ## Sources -/

/-- A source that has been parsed is an alternation of gaps and tokens, and the remarks on its tokens
are all that there is to say. -/
theorem Tree.exists_alternation_of_parse {text : List Char} {tree : Tree.Program}
    (hparse : (Tree.parse (.ofText text)).program = some tree) :
    ∃ cuts last, Token.Alternation [] text (TokenStream.ofText text).tokens cuts last ∧
      (TokenStream.ofText text).messages = TokenStream.warnings (TokenStream.ofText text).tokens := by
  obtain ⟨body, last, hcuts, _⟩ := Tree.cuts_of_parse hparse
  rw [TokenStream.ofText_eq_iff_cuts.2 hcuts]
  obtain ⟨cuts, gap, halternation⟩ := hcuts.exists_alternation [] rfl
  exact ⟨cuts, gap, halternation, List.append_nil _⟩

/-- If the integers of a program are runs of digits, then the numbers of its functions are small. -/
theorem Tree.numbers_le {tree : Tree.Program} {runs : List Token.Run}
    (hintegers : (literalsOf tree.exprs).filterMap (·.integer?) =
      runs.map fun run => (run.span, run.number)) {decl : FnDecl} (hdecl : decl ∈ tree.functions) :
    ∀ number ∈ decl.numbers, number ≤ maxInt := by
  intro number hnumber
  have hone : 1 ≤ maxInt := by decide
  rcases List.mem_append.1 hnumber with hnumber | hnumber
  · obtain ⟨part, hpart, hvalue⟩ := List.mem_filterMap.1 hnumber
    cases part with
    | int node value =>
        obtain rfl : value = number := Option.some.inj hvalue
        have hexprs : .int node value ∈ tree.exprs := by
          obtain ⟨whole, hwhole, hfunction⟩ := List.mem_filterMap.1 hdecl
          refine List.mem_flatMap.2 ⟨whole, hwhole, ?_⟩
          cases whole with
          | fn inner =>
              obtain rfl : inner = decl := Option.some.inj hfunction
              exact hpart
          | _ => cases hfunction
        have hmem : (node.span, value) ∈ (literalsOf tree.exprs).filterMap (·.integer?) :=
          List.mem_filterMap.2 ⟨.int node.span value,
            List.mem_filterMap.2 ⟨_, hexprs, rfl⟩, rfl⟩
        rw [hintegers] at hmem
        obtain ⟨run, _, hrun⟩ := List.mem_map.1 hmem
        rw [← (Prod.mk.inj hrun).2]
        exact run.number_le
    | bool node value =>
        obtain rfl : value.toNat = number := Option.some.inj hvalue
        exact (Bool.toNat_le value).trans hone
    | _ => cases hvalue
  · obtain ⟨stmt, _, hstep⟩ := List.mem_filterMap.1 hnumber
    cases stmt with
    | increment | decrement =>
        obtain rfl : 1 = number := Option.some.inj hstep
        exact hone
    | _ => cases hstep

namespace Target

/-! ## Emission -/

/-- A number that fits into 32 bits with a sign, in decimal. -/
def Fits32 (text : String) : Prop := ∃ number ≤ maxInt, text = toString number

/-- The constants of a procedure are small numbers. -/
def Small (procedure : Procedure) : Prop :=
  ∃ numbers, procedure.Writes numbers ∧ ∀ number ∈ numbers, number ≤ maxInt

/-- The numbers in what is emitted for a program are the constants of its procedures and, apart from
that, the small numbers that belong to the forms of instructions or to system calls. -/
structure Keeps (program : Program) : Prop where
  x64 : ∀ placement, ∃ lines, (emit .x64 program placement).2 = .ok (renderLines X64.Instr.render
      (X64.dataLines program ++ [.directive ".globl main", .directive ".text"] ++ lines)) ∧
    X64.immediates (instrs lines) = (program.procedures.flatMap fun procedure =>
      procedure.quads.flatMap fun quad => X64.fetched quad.instr) ∧
    ∀ text ∈ X64.immediates (instrs lines), Fits32 text
  mips : ∀ placement, ∃ lines, (emit .mips program placement).2 = .ok (renderLines Mips.Instr.render
      (Mips.dataLines program ++ Mips.startLines program ++ lines)) ∧
    Mips.immediates (instrs lines) = (program.procedures.flatMap fun procedure =>
      procedure.quads.flatMap fun quad => Mips.fetched quad.instr) ∧
    ∀ text ∈ Mips.immediates (instrs (Mips.startLines program ++ lines)), Fits32 text
  llvm : ∃ module functions, Llvm.Module.ofProgram program = .ok module ∧
    Llvm.emit program = .ok module.render ∧ module.functions = Llvm.runtime ++ functions ∧
    List.Forall₂ (fun procedure function => ∃ numbers, procedure.Writes numbers ∧
      function.words.Perm (numbers.map Int.ofNat ++
        procedure.quads.flatMap fun quad => Llvm.ownWords quad.instr) ∧
      ∀ word ∈ function.words, Llvm.readWord? (Llvm.renderWord word) = some word)
      program.procedures functions

section Emission

variable {program : Program}

theorem fits32_of_small {procedure : Procedure} (hsmall : Small procedure) :
    ∀ text ∈ constantsOf procedure.quads, Fits32 text := by
  obtain ⟨numbers, hwrites, hbound⟩ := hsmall
  intro text htext
  obtain ⟨number, hnumber, rfl⟩ := List.mem_map.1 (hwrites.mem_iff.1 htext)
  exact ⟨number, hbound number hnumber, rfl⟩

/-- What is loaded for a program is small if what is loaded for an instruction is small or among its
constants. -/
theorem fits32_of_fetched {fetched : Code.Instr → List String}
    (hfetched : ∀ instr, ∀ text ∈ fetched instr, text ∈ instr.constants ∨ Fits32 text)
    (hsmall : ∀ procedure ∈ program.procedures, Small procedure) :
    ∀ text ∈ program.procedures.flatMap fun procedure =>
      procedure.quads.flatMap fun quad => fetched quad.instr, Fits32 text := by
  intro text htext
  obtain ⟨procedure, hprocedure, htext⟩ := List.mem_flatMap.1 htext
  obtain ⟨quad, hquad, htext⟩ := List.mem_flatMap.1 htext
  rcases hfetched quad.instr text htext with hconstant | hfits
  · exact fits32_of_small (hsmall procedure hprocedure) text
      (List.mem_flatMap.2 ⟨quad, hquad, hconstant⟩)
  · exact hfits

theorem X64.fetched_subset (instr : Code.Instr) : fetched instr ⊆ instr.constants := by
  cases instr with
  | binary op target left right =>
      simp only [fetched]
      split
      · exact (List.Sublist.filterMap _ (List.sublist_append_left [left] [right])).subset
      · exact List.Subset.refl _
  | ifZero => exact List.nil_subset _
  | _ => exact List.Subset.refl _

theorem Mips.fetched_cases (instr : Code.Instr) :
    ∀ text ∈ fetched instr, text ∈ instr.constants ∨ Fits32 text := by
  have hcode : ∀ call : Service, Fits32 call.code := by
    intro call
    cases call with
    | printInt => exact ⟨1, by decide, rfl⟩
    | printString => exact ⟨4, by decide, rfl⟩
    | readInt => exact ⟨5, by decide, rfl⟩
    | exit => exact ⟨17, by decide, rfl⟩
  intro text htext
  cases instr with
  | output source type =>
      refine (List.mem_append.1 htext).imp_right fun hservice => ?_
      cases type with
      | bool => cases hservice
      | _ =>
          obtain rfl := List.mem_singleton.1 hservice
          exact hcode _
  | input target type =>
      obtain rfl := List.mem_singleton.1 htext
      exact .inr (hcode .readInt)
  | ifZero => cases htext
  | _ => exact .inl htext

/-- The lines in front of the procedures load the numbers of two system calls at most. -/
theorem Mips.fits32_startLines (program : Program) :
    ∀ text ∈ immediates (instrs (startLines program)), Fits32 text := by
  have hexit : Fits32 Service.exit.code := ⟨17, by decide, rfl⟩
  have hprint : Fits32 Service.printString.code := ⟨4, by decide, rfl⟩
  unfold startLines
  split
  · exact List.forall_mem_cons.2 ⟨hexit, List.forall_mem_singleton.2 hprint⟩
  · exact List.forall_mem_singleton.2 hexit

/-- A program with small constants is emitted with them. -/
theorem keeps (hfitting : program.Fitting) (hshaped : program.Shaped)
    (hsmall : ∀ procedure ∈ program.procedures, Small procedure) : Keeps program where
  x64 := by
    intro placement
    obtain ⟨lines, hlines, _⟩ :=
      X64.procedures_succeed hfitting.procedures (layOutGlobals .x64 placement program) 0
    have hloads := X64.procedures_immediates _ 0 program.procedures lines hlines
    refine ⟨lines, by simp only [emit, X64.emit, hlines]; rfl, hloads, ?_⟩
    rw [hloads]
    exact fits32_of_fetched (fun instr text htext => .inl (X64.fetched_subset instr htext)) hsmall
  mips := by
    intro placement
    obtain ⟨lines, hlines, _⟩ :=
      Mips.procedures_succeed hfitting.procedures (layOutGlobals .mips placement program) 0
    have hloads := Mips.procedures_immediates _ 0 program.procedures lines hlines
    refine ⟨lines, by simp only [emit, Mips.emit, hlines]; rfl, hloads, ?_⟩
    rw [instrs_append, Mips.immediates_append, hloads, List.forall_mem_append]
    exact ⟨Mips.fits32_startLines program, fits32_of_fetched Mips.fetched_cases hsmall⟩
  llvm := by
    obtain ⟨module, hmodule, _⟩ := Llvm.Module.ofProgram_yields hfitting
    obtain ⟨functions, hfunctions, hspells⟩ :=
      Llvm.Module.ofProgram_spells hfitting hshaped module hmodule
    refine ⟨module, functions, hmodule, ?_, hfunctions, ?_⟩
    · simp only [Llvm.emit, hmodule, Code.Lowering.ok_bind]
      rfl
    · refine ((List.forall₂_and_left _ _).2 ⟨hsmall, hspells⟩).imp fun procedure function hboth => ?_
      obtain ⟨⟨numbers, hwrites, hbound⟩, hspells⟩ := hboth
      exact ⟨numbers, hwrites, hspells.trans (Llvm.neededOf_perm hwrites hbound),
        fun word _ => Llvm.readWord?_renderWord word⟩

end Emission

/-! ## Accepted programs -/

/-- Integers of accepted programs keep their value. If bytes have been read, parsed, resolved and
checked without a mistake, then the integers of the tree are the runs of digits of the source, each
with its decimal value or the largest integer, whichever is less, and the remarks on the source are
one about each run that goes beyond the largest integer. The constants of the code are the numbers of
its functions, all of them small, each as often as the function has it, and none are added when it is
optimized. What is emitted for either has the constants in decimal and as words, unless they are not
needed, and no other numbers than those of instructions and system calls. -/
theorem integers_keep_value (bytes : List UInt8) (tree : Tree.Program)
    (hparse : (Tree.parse (.ofText (Text.Utf8.decode bytes))).program = some tree)
    (state : Resolution.State) (resolved : Resolution.Resolved Tree.Program)
    (hresolve : resolve {} tree = .ok (state, resolved)) (hok : resolved.ok = true)
    (checked : Typing.Checked Tree.Program) (hcheck : check resolved.tree = .ok checked)
    (hmessages : checked.messages = []) :
    ∃ cuts last, Token.Alternation [] (Text.Utf8.decode bytes)
        (TokenStream.ofText (Text.Utf8.decode bytes)).tokens cuts last ∧
      (∀ run ∈ runsOf cuts, run.digits ≠ [] ∧ ∀ c ∈ run.digits, Text.isDigit c = true) ∧
      (TokenStream.ofText (Text.Utf8.decode bytes)).messages =
        ((runsOf cuts).filter (·.isLarge)).map (·.warning) ∧
      (∀ program ∈ [tree, checked.tree],
        (Tree.literalsOf program.exprs).filterMap (·.integer?) =
          (runsOf cuts).map fun run => (run.span, min (Text.decimalValue run.digits) 2147483647)) ∧
      ∃ code, Code.lower checked.tree = .ok code ∧
        List.Forall₂ (fun decl procedure => procedure.Writes decl.numbers) checked.tree.functions
          code.procedures ∧
        (∀ decl ∈ checked.tree.functions, ∀ number ∈ decl.numbers, number ≤ 2147483647) ∧
        ∀ program ∈ [code, code.optimize],
          List.Forall₂ (fun decl procedure => ∃ numbers, numbers.Subperm decl.numbers ∧
            procedure.Writes numbers) checked.tree.functions program.procedures ∧
          Keeps program := by
  obtain ⟨cuts, last, halternation, hremarks⟩ := Tree.exists_alternation_of_parse hparse
  have hintegers : ∀ program ∈ [tree, checked.tree],
      (Tree.literalsOf program.exprs).filterMap (·.integer?) =
        (runsOf cuts).map fun run => (run.span, run.number) := by
    rw [List.forall_mem_cons, List.forall_mem_singleton, Tree.literalsOf_parse hparse,
      Acceptance.literalsOf_accepted hparse Registry.coherent_empty hresolve hok hcheck]
    exact ⟨halternation.integers, halternation.integers⟩
  have hbound := fun decl hdecl => @Tree.numbers_le checked.tree (runsOf cuts)
    (hintegers _ (List.mem_cons_of_mem _ List.mem_cons_self)) decl hdecl
  obtain ⟨code, hlower, hall⟩ := Code.exists_lower_shaped hparse hresolve hok hcheck hmessages
  obtain ⟨code', hlower', hcode⟩ := Code.exists_lower_eq
    (Acceptance.goodDecls_of_accepted hparse Registry.coherent_empty hresolve hok hcheck hmessages)
  obtain rfl : code = code' := Except.ok.inj (hlower.symm.trans hlower')
  obtain ⟨hwrites, hfewer⟩ := hcode.writes
  refine ⟨cuts, last, halternation, fun run hrun => halternation.digits hrun,
    hremarks.trans halternation.warnings, hintegers, code, hlower, hwrites, hbound, ?_⟩
  intro program hprogram
  obtain ⟨hfitting, hshaped, _⟩ := hall program hprogram
  refine ⟨hfewer program hprogram, keeps hfitting hshaped fun procedure hprocedure => ?_⟩
  -- A procedure has no other numbers than its function, so they are small, too.
  obtain ⟨decl, hdecl, numbers, hsubperm, hprocedure⟩ :=
    Code.exists_of_mem_right (hfewer program hprogram) hprocedure
  exact ⟨numbers, hprocedure, fun number hnumber =>
    hbound decl hdecl number (hsubperm.subset hnumber)⟩

/-- A program with zeros in front of digits, and with digits that no word can hold. -/
def zerosText : String :=
  "int twice(int n) \x7b return n * 0002; \x7d " ++
  "void main() \x7b int k; k = 0000000000000000000000042 - 001; k = 00099999999999999999999; " ++
  "if (true) \x7b report twice(007); \x7d k++; \x7d"

/-- The zeros do not matter, and the largest integer stands for the digits that go beyond it. -/
theorem integers_keep_value_zeros :
    ∃ tree code, Code.accepted? zerosText = some tree ∧ Code.lower tree = .ok code ∧
      ((Tree.literalsOf tree.exprs).filterMap (·.integer?)).map (·.2) = [2, 42, 1, 2147483647, 7] ∧
      (∃ cuts last, Token.Alternation [] (Text.Utf8.decode (Text.Utf8.encode zerosText.toList))
          (TokenStream.ofText (Text.Utf8.decode (Text.Utf8.encode zerosText.toList))).tokens cuts
          last ∧
        (TokenStream.ofText (Text.Utf8.decode (Text.Utf8.encode zerosText.toList))).messages =
          ((runsOf cuts).filter (·.isLarge)).map (·.warning) ∧
        (Tree.literalsOf tree.exprs).filterMap (·.integer?) = (runsOf cuts).map fun run =>
          (run.span, min (Text.decimalValue run.digits) 2147483647)) ∧
      List.Forall₂ (fun decl procedure => procedure.Writes decl.numbers) tree.functions
        code.procedures ∧
      ∀ program ∈ [code, code.optimize], Keeps program := by
  have hsample : ∃ tree ∈ Code.accepted? zerosText,
      ((Tree.literalsOf tree.exprs).filterMap (·.integer?)).map (·.2) =
        [2, 42, 1, 2147483647, 7] := by
    unfold Code.accepted? zerosText
    repeat rewrite [String.toList_append]
    repeat rewrite [String.toList_ofList]
    decide +kernel
  obtain ⟨program, haccepted, hvalues⟩ := hsample
  obtain ⟨tree, state, resolved, checked, hparse, hresolve, hok, hcheck, hmessages, rfl⟩ :=
    Code.exists_of_accepted? haccepted
  rw [← Text.Utf8.decode_encode zerosText.toList] at hparse
  obtain ⟨cuts, last, halternation, _, hremarks, hintegers, code, hlower, hwrites, _, hkeeps⟩ :=
    integers_keep_value _ tree hparse state resolved hresolve hok checked hcheck hmessages
  have hchecked := hintegers checked.tree (List.mem_cons_of_mem _ List.mem_cons_self)
  exact ⟨checked.tree, code, haccepted, hlower, hvalues,
    ⟨cuts, last, halternation, hremarks, hchecked⟩, hwrites,
    fun program hprogram => (hkeeps program hprogram).2⟩

end Target

end Shanty
