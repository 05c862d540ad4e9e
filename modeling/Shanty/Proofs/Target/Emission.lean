/-
# Accepted programs can be emitted

Lowering, optimization and emission break off where something is missing that an earlier phase should
have seen to. For programs that have been parsed, resolved and checked without a mistake this never
happens: their literals can be read and their symbols are told apart, so their code fits, it still
fits once it is optimized, and code that fits can be emitted for every target.
-/

import Shanty.Proofs.Acceptance.Symbols
import Shanty.Proofs.Code.Fitting.Programs
import Shanty.Proofs.Code.Meaning
import Shanty.Proofs.Target.Llvm.Module
import Shanty.Proofs.Text.Utf8
import Shanty.Target

namespace Shanty.Target

open Acceptance (goodDecls_of_accepted settled_of_accepted)

/-- A program that fits can be emitted for every target, wherever its storage lies. -/
theorem emit_succeeds {program : Code.Program} (hfitting : program.Fitting) (target : Target)
    (placement : Placement) : Succeeds (emit target program placement).2 := by
  cases target with
  | x64 => exact X64.emit_succeeds hfitting placement
  | mips => exact Mips.emit_succeeds hfitting placement
  | llvm => exact Llvm.emit_succeeds hfitting

/-- Accepted programs can be emitted. If bytes have been read, parsed, resolved and checked without a
mistake, then lowering the program succeeds. Its code can be emitted for every target, wherever
storage lies, both as it is and optimized, and the modules of LLVM that are emitted are well typed. -/
theorem emit_succeeds_of_accepted (bytes : List UInt8) (tree : Tree.Program)
    (hparse : (Tree.parse (.ofText (Text.Utf8.decode bytes))).program = some tree)
    (state : Resolution.State) (resolved : Resolution.Resolved Tree.Program)
    (hresolve : resolve {} tree = .ok (state, resolved)) (hok : resolved.ok = true)
    (checked : Typing.Checked Tree.Program) (hcheck : check resolved.tree = .ok checked)
    (hmessages : checked.messages = []) :
    ∃ code, Code.lower checked.tree = .ok code ∧
      ∀ program ∈ [code, code.optimize],
        (∀ target placement, ∃ text, (emit target program placement).2 = .ok text) ∧
        ∃ module, Llvm.Module.ofProgram program = .ok module ∧ module.Typed := by
  have hgood := goodDecls_of_accepted hparse Registry.coherent_empty hresolve hok hcheck hmessages
  have hsettled := settled_of_accepted hparse Registry.coherent_empty hresolve hok hcheck hmessages
  obtain ⟨code, hlower, hfitting⟩ := Code.exists_lower_fitting hgood hsettled
  refine ⟨code, hlower, ?_⟩
  intro program hprogram
  have hfits : program.Fitting := by
    simp only [List.mem_cons, List.not_mem_nil, or_false] at hprogram
    rcases hprogram with rfl | rfl
    · exact hfitting
    · exact hfitting.optimize
  refine ⟨?_, Llvm.Module.ofProgram_yields hfits⟩
  intro target placement
  obtain ⟨text, htext, _⟩ := emit_succeeds hfits target placement
  exact ⟨text, htext⟩

/-- A program in which records and strings are passed to functions, returned from them and kept. -/
def pairsText : String :=
  "record Pair \x7b int n; string s; \x7d Pair kept; bool done; " ++
  "string pick(bool b, string s) \x7b if (b) \x7b return \"yes\\n\"; \x7d return s; \x7d " ++
  "Pair fill(Pair p, int n) \x7b p[n] = n; p[s] = pick(n < 3, \"no\"); return p; \x7d " ++
  "void main() \x7b receive done; while (!done) \x7b fill(fill(kept, 1), 2); \x7d report kept[s]; \x7d"

/-- The program with the pairs is accepted, so it can be emitted. -/
theorem emit_succeeds_of_accepted_pairs :
    ∃ tree code, Code.accepted? pairsText = some tree ∧ Code.lower tree = .ok code ∧
      ∀ program ∈ [code, code.optimize],
        (∀ target placement, ∃ text, (emit target program placement).2 = .ok text) ∧
        ∃ module, Llvm.Module.ofProgram program = .ok module ∧ module.Typed := by
  have hsome : (Code.accepted? pairsText).isSome = true := by
    unfold Code.accepted? pairsText
    repeat rewrite [String.toList_append]
    repeat rewrite [String.toList_ofList]
    decide +kernel
  obtain ⟨program, haccepted⟩ := Option.isSome_iff_exists.1 hsome
  obtain ⟨tree, state, resolved, checked, hparse, hresolve, hok, hcheck, hmessages, rfl⟩ :=
    Code.exists_of_accepted? haccepted
  rw [← Text.Utf8.decode_encode pairsText.toList] at hparse
  obtain ⟨code, hlower, hemits⟩ := emit_succeeds_of_accepted _ tree hparse state resolved hresolve
    hok checked hcheck hmessages
  exact ⟨checked.tree, code, haccepted, hlower, hemits⟩

end Shanty.Target
