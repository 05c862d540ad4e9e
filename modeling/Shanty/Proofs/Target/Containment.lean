/-
# Storage stays in its frame

What a procedure stores lies in its frame, one piece next to the other. No two pieces share a byte, none
reaches up to what the frame keeps for the caller, and none reaches below the end of the frame, which is
computed separately and rounded up. An address that is computed from a piece stays in that piece with
all that lies there, also where the offset of a field is added to the address of another field.

All of this is arithmetic with distances from the frame pointer, and distances are words. A program can
declare types and variables that are too large for that. Then distances wrap around, storage comes to
lie upon other storage, and nobody notices.
-/

import Shanty.Proofs.Code.Accepted
import Shanty.Proofs.Code.Accesses
import Shanty.Proofs.Code.Meaning
import Shanty.Proofs.Target.Mips.Convention
import Shanty.Proofs.Target.X64.Convention
import Shanty.Proofs.Text.Utf8

namespace Shanty.Target

open Code (Procedure Program Slot Variable Selects Fair accesses)

/-! ## Ranges -/

/-- Some bytes one after the other, counted from a frame pointer or from a label. The last one is the
one before the stop. -/
structure Range where
  start : Int
  stop : Int
  deriving DecidableEq

namespace Range

/-- All bytes of a range are among those of another one. -/
def Within (inner outer : Range) : Prop := outer.start ≤ inner.start ∧ inner.stop ≤ outer.stop

/-- Two ranges have no byte in common. -/
def Apart (first second : Range) : Prop := first.stop ≤ second.start ∨ second.stop ≤ first.start

/-- The bytes of a part of a range, given where the part starts and how many bytes it has. -/
def part (range : Range) (start size : Int) : Range :=
  ⟨range.start + start, range.start + start + size⟩

instance (inner outer : Range) : Decidable (inner.Within outer) := inferInstanceAs (Decidable (_ ∧ _))

instance (first second : Range) : Decidable (first.Apart second) := inferInstanceAs (Decidable (_ ∨ _))

theorem part_within {range : Range} {start size : Int} (hstart : 0 ≤ start)
    (hsize : range.start + (start + size) ≤ range.stop) : (range.part start size).Within range := by
  constructor <;> simp only [part] <;> omega

end Range

/-- The bytes at a location on a machine, given how many they are. -/
def Location.range? (machine : Machine) (size : Int) : Location → Option Range
  | .frame own distance =>
    if own = machine then some ⟨-distance.toInt, -distance.toInt + size⟩ else none
  | .data own _ => if own = machine then some ⟨0, size⟩ else none
  | .unset | .chosen _ => none

/-! ## Frames -/

/-- The storage of a procedure and the fields in it, given where the bytes of its frame are. -/
structure Contained (machine : Machine) (scale : Int64 → Int64) (symbols : List Symbol)
    (procedure : Procedure) (placement : Placement) (frame : Range) : Prop where
  /-- Every piece of storage lies in the frame. -/
  within : ∀ piece ∈ storage scale procedure, ∃ range,
    (placement piece.1).range? machine piece.2.toInt = some range ∧ range.Within frame
  /-- No two pieces of storage share a byte. -/
  apart : (storage scale procedure).Pairwise fun first second =>
    ∀ range ∈ (placement first.1).range? machine first.2.toInt,
      ∀ other ∈ (placement second.1).range? machine second.2.toInt, range.Apart other
  /-- Every address that is computed is that of a field of a variable. -/
  selects : ∀ access ∈ accesses procedure.body, ∃ root start type,
    Selects scale symbols (accesses procedure.body) (.address access.target) root start type
  /-- Every address is kept in a temporary of its own. -/
  nodup : ((accesses procedure.body).map (·.target.slot)).Nodup
  /-- A field whose address is computed lies in its variable from its first byte to its last one. -/
  inside : ∀ temp root start type,
    Selects scale symbols (accesses procedure.body) (.address temp) root start type →
      ∃ whole, (placement root.slot).range? machine (scale root.width).toInt = some whole ∧
        (whole.part start (scale type.size).toInt).Within whole

section Contained

variable {machine : Machine} {start : Int64} {scale : Int64 → Int64} {symbols : List Symbol}
  {program : Program} {procedure : Procedure} {placement : Placement}

/-- The bytes of a piece of a frame. -/
def Piece.range (piece : Piece) : Range :=
  ⟨-piece.distance.toInt, -piece.distance.toInt + piece.width.toInt⟩

theorem Placed.range?_eq (hplaced : Placed machine start scale program procedure placement)
    {piece : Piece} (hmem : piece ∈ pieces start (storage scale procedure)) :
    (placement piece.slot).range? machine piece.width.toInt = some piece.range := by
  rw [hplaced.frame piece hmem, Location.range?, if_pos rfl, Piece.range]

theorem map_pieces (start : Int64) (storage : List (Slot × Int64)) :
    (pieces start storage).map (fun piece => (piece.slot, piece.width)) = storage := by
  induction storage generalizing start with
  | nil => rfl
  | cons entry rest ih => exact congrArg (entry :: ·) (ih _)

/-- The variables that a procedure can refer to have ranges as large as themselves. -/
theorem Placed.exists_range (hplaced : Placed machine start scale program procedure placement)
    {var : Variable} (hmem : var ∈ program.globals ++ (procedure.formals ++ procedure.locals)) :
    ∃ whole : Range, (placement var.slot).range? machine (scale var.width).toInt = some whole ∧
      whole.stop = whole.start + (scale var.width).toInt := by
  rcases List.mem_append.1 hmem with hglobal | hlocal
  · rw [hplaced.globals var hglobal, Location.range?, if_pos rfl]
    exact ⟨_, rfl, by simp⟩
  · have hstorage : (var.slot, scale var.width) ∈ storage scale procedure := by
      simp only [storage, List.mem_append, List.mem_map]
      exact .inl (.inl ((List.mem_append.1 hlocal).imp (fun hmem => ⟨var, hmem, rfl⟩)
        fun hmem => ⟨var, hmem, rfl⟩))
    obtain ⟨piece, hpiece, hslot, hwidth⟩ := exists_piece start hstorage
    rw [← hslot, ← hwidth]
    exact ⟨_, hplaced.range?_eq hpiece, rfl⟩

/-- A procedure that is in its place stays in its frame if its distances do not wrap around. -/
theorem contained_of_placed (hplaced : Placed machine start scale program procedure placement)
    (hroomy : Roomy start (storage scale procedure)) {frame : Range}
    (hbottom : frame.start ≤ -(start.toInt + extent (storage scale procedure)))
    (htop : -start.toInt ≤ frame.stop) (hselecting : procedure.Selecting scale symbols)
    (hinside : ∀ temp root first type,
      Selects scale symbols (accesses procedure.body) (.address temp) root first type →
        root ∈ program.globals ++ (procedure.formals ++ procedure.locals) ∧ 0 ≤ first ∧
          first + (scale type.size).toInt ≤ (scale root.width).toInt) :
    Contained machine scale symbols procedure placement frame where
  within := by
    intro entry hentry
    obtain ⟨piece, hpiece, hslot, hwidth⟩ := exists_piece start hentry
    obtain ⟨_, hlow, hhigh⟩ := hroomy.piece_bounds hpiece
    refine ⟨piece.range, ?_, ?_⟩
    · rw [← hslot, ← hwidth]
      exact hplaced.range?_eq hpiece
    · constructor <;> simp only [Piece.range] <;> omega
  apart := by
    rw [← map_pieces start (storage scale procedure), List.pairwise_map]
    refine hroomy.pairwise.imp_of_mem fun {upper lower} hupper hlower hle => ?_
    intro range hrange other hother
    rw [hplaced.range?_eq hupper] at hrange
    rw [hplaced.range?_eq hlower] at hother
    cases hrange
    cases hother
    right
    simp only [Piece.range]
    omega
  selects := by
    obtain ⟨_, _, hselecting⟩ := hselecting
    exact hselecting.selects
  nodup := by
    obtain ⟨_, _, hselecting⟩ := hselecting
    refine List.Nodup.of_map (fun | .temp _ number => number | .var _ => 0) ?_
    rw [List.map_map]
    exact hselecting.nodup
  inside := by
    intro temp root first type hselects
    obtain ⟨hroot, hfirst, hlast⟩ := hinside temp root first type hselects
    obtain ⟨whole, hwhole, hstop⟩ := hplaced.exists_range hroot
    exact ⟨whole, hwhole, Range.part_within hfirst (by omega)⟩

end Contained

/-! ## Machines -/

theorem fair_id : Fair id := fun _ _ _ hoffset hwhole _ => ⟨hoffset, hwhole⟩

namespace Mips

/-- Halves stay inside of halves. -/
theorem fair_halve : Fair halve := by
  intro offset size whole hoffset hwhole hsize
  rw [toInt_halve, toInt_halve, toInt_halve, Int.tdiv_eq_ediv_of_nonneg hoffset,
    Int.tdiv_eq_ediv_of_nonneg hsize, Int.tdiv_eq_ediv_of_nonneg (by omega)]
  omega

end Mips

/-- Halves of widths take at most as many bytes. -/
theorem extent_halve_le {procedure : Procedure}
    (hnonneg : ∀ entry ∈ storage id procedure, 0 ≤ entry.2.toInt) :
    (∀ entry ∈ storage Mips.halve procedure, 0 ≤ entry.2.toInt) ∧
      extent (storage Mips.halve procedure) ≤ extent (storage id procedure) := by
  have hmap : storage Mips.halve procedure =
      (storage id procedure).map fun entry => (entry.1, Mips.halve entry.2) := by
    simp [storage, Function.comp_def]
  rw [hmap]
  generalize storage id procedure = storage at hnonneg ⊢
  induction storage with
  | nil => exact ⟨by simp, Nat.le_refl _⟩
  | cons entry rest ih =>
      rw [List.forall_mem_cons] at hnonneg
      obtain ⟨hrest, hextent⟩ := ih hnonneg.2
      have hhalf := Mips.toInt_halve entry.2
      rw [Int.tdiv_eq_ediv_of_nonneg hnonneg.1] at hhalf
      rw [List.map_cons, List.forall_mem_cons]
      refine ⟨⟨by dsimp only; omega, hrest⟩, ?_⟩
      simp only [extent, List.map_cons, List.sum_cons, Int64.toNatClampNeg] at hextent ⊢
      omega

/-- Storage that has room on one machine has room on the one with smaller words. -/
theorem roomy_halve {procedure : Procedure} (hroomy : Roomy X64.frameStart (storage id procedure)) :
    Roomy Mips.frameStart (storage Mips.halve procedure) ∧
      extent (storage Mips.halve procedure) + 16 < 2 ^ 63 := by
  obtain ⟨hnonneg, hextent⟩ := extent_halve_le hroomy.nonneg
  have hbound := hroomy.bound
  have hstart : X64.frameStart.toInt = 16 := by decide
  have hstart' : Mips.frameStart.toInt = 8 := by decide
  exact ⟨⟨by decide, hnonneg, by omega⟩, by omega⟩

/-! ## Accepted programs -/

/-- The storage of every procedure of an accepted program stays in its frame, and fields stay in their
variables, for either machine and also once the program is optimized. This holds as long as all sizes
can be told: no type that the program declares has so many bytes that its size wraps around, and neither
do the distances from the frame pointer. -/
theorem contained_of_accepted (bytes : List UInt8) (tree : Tree.Program)
    (hparse : (Tree.parse (.ofText (Text.Utf8.decode bytes))).program = some tree)
    (state : Resolution.State) (resolved : Resolution.Resolved Tree.Program)
    (hresolve : resolve {} tree = .ok (state, resolved)) (hok : resolved.ok = true)
    (checked : Typing.Checked Tree.Program) (hcheck : check resolved.tree = .ok checked)
    (hmessages : checked.messages = [])
    (hsizes : ∀ symbol ∈ checked.tree.declared, symbol.type.bytes < 2 ^ 63) :
    ∃ code, Code.lower checked.tree = .ok code ∧ ∀ program ∈ [code, code.optimize],
      ∀ before procedure after, program.procedures = before ++ procedure :: after →
        Roomy X64.frameStart (storage id procedure) → ∀ initial : Placement,
          (16 ∣ procedure.frameSize.toInt ∧ Contained .x64 id checked.tree.declared procedure
            (X64.layOut (before.foldl X64.layOut (layOutGlobals .x64 initial program)) procedure)
            ⟨-16 - procedure.frameSize.toInt, -16⟩) ∧
          8 ∣ (Mips.frameSize procedure).toInt ∧
            Contained .mips Mips.halve checked.tree.declared procedure
              (Mips.layOut (before.foldl Mips.layOut (layOutGlobals .mips initial program)) procedure)
              ⟨-(Mips.frameSize procedure).toInt, -8⟩ := by
  have hgood := Acceptance.goodDecls_of_accepted hparse Registry.coherent_empty hresolve hok hcheck
    hmessages
  have hsettled := Acceptance.settled_of_accepted hparse Registry.coherent_empty hresolve hok hcheck
    hmessages
  obtain ⟨registry, hcoherent, hfits⟩ :=
    Acceptance.exists_registry_of_accepted Registry.coherent_empty hresolve hok hcheck
  obtain ⟨code, hlower, hall⟩ := Code.exists_lower_shaped hparse hresolve hok hcheck hmessages
  have hselecting : ∀ scale : Int64 → Int64, ∀ program ∈ [code, code.optimize],
      program.Selecting scale checked.tree.declared := by
    intro scale
    have hcode := Code.selecting_of_lower scale hgood hsettled hlower
    simpa using And.intro hcode hcode.optimize
  refine ⟨code, hlower, ?_⟩
  intro program hprogram before procedure after hprocedures hroomy initial
  obtain ⟨hfitting, hshaped, _⟩ := hall program hprogram
  have hmem : procedure ∈ program.procedures := by simp [hprocedures]
  have hinside : ∀ scale : Int64 → Int64, Fair scale → ∀ temp root first type,
      Selects scale checked.tree.declared (accesses procedure.body) (.address temp) root first type →
        root ∈ program.globals ++ (procedure.formals ++ procedure.locals) ∧ 0 ≤ first ∧
          first + (scale type.size).toInt ≤ (scale root.width).toInt :=
    fun scale hfair temp root first type => (hselecting scale program hprogram).inside hfair hcoherent
      hfits hsizes hsettled.numbers hmem (hfitting.procedures procedure hmem)
  constructor
  · obtain ⟨hlow, _, hdvd⟩ := X64.toInt_frameSize hroomy
    have hstart : X64.frameStart.toInt = 16 := by decide
    have hplaced := @placed_layOut .x64 X64.frameStart id _ hfitting hshaped before after procedure
      hprocedures X64.layOut initial fun placement procedure => by rw [List.map_id]; rfl
    refine ⟨hdvd, contained_of_placed hplaced hroomy ?_ ?_
      ((hselecting id program hprogram).procedures procedure hmem) (hinside id fair_id)⟩
    · dsimp only
      omega
    · dsimp only
      omega
  · obtain ⟨hroomy', hroom⟩ := roomy_halve hroomy
    obtain ⟨hlow, _, hdvd⟩ := Mips.toInt_frameSize hroomy' hroom
    have hstart : Mips.frameStart.toInt = 8 := by decide
    have hplaced := @placed_layOut .mips Mips.frameStart Mips.halve _ hfitting hshaped before after
      procedure hprocedures Mips.layOut initial fun _ _ => rfl
    refine ⟨hdvd, contained_of_placed hplaced hroomy' ?_ ?_
      ((hselecting Mips.halve program hprogram).procedures procedure hmem)
      (hinside Mips.halve Mips.fair_halve)⟩
    · dsimp only
      omega
    · dsimp only
      omega

/-- A program with records in records, one of them without fields, as global variables, parameters,
local variables and results. -/
def nestedText : String :=
  "record Mark \x7b \x7d record Point \x7b int x; int y; \x7d " ++
  "record Line \x7b Point from; Mark mark; Point to; \x7d Line kept; " ++
  "Line shift(Line line, int by) \x7b Mark none; line[to][x] = line[from][y] + by; kept[to][y]++; " ++
  "return line; \x7d " ++
  "void main() \x7b receive kept[from][x]; shift(kept, 2); report kept[to][x]; \x7d"

/-- The frame of a procedure holds its storage, and the fields of fields are inside of it. -/
theorem contained_of_accepted_nested :
    ∃ tree code shift main, Code.accepted? nestedText = some tree ∧ Code.lower tree = .ok code ∧
      code.procedures = [shift, main] ∧
      (accesses shift.body).map (·.offset) = ["0", "8", "16", "0", "16", "8"] ∧
      Contained .x64 id tree.declared shift
        (X64.layOut (layOutGlobals .x64 .empty code) shift) ⟨-112, -16⟩ ∧
      Contained .mips Mips.halve tree.declared shift
        (Mips.layOut (layOutGlobals .mips .empty code) shift) ⟨-56, -8⟩ := by
  have hsample : ∃ tree ∈ Code.accepted? nestedText,
      (∀ symbol ∈ tree.declared, symbol.type.bytes < 2 ^ 63) ∧
      ∃ code ∈ (Code.lower tree).toOption, code.procedures.length = 2 ∧
        ∀ shift ∈ code.procedures.head?, Roomy X64.frameStart (storage id shift) ∧
          shift.frameSize = 96 ∧ Mips.frameSize shift = 56 ∧
          (accesses shift.body).map (·.offset) = ["0", "8", "16", "0", "16", "8"] := by
    unfold Code.accepted? nestedText
    repeat rewrite [String.toList_append]
    repeat rewrite [String.toList_ofList]
    decide +kernel
  obtain ⟨program, haccepted, hsizes, code, hcode, hlength, hshift⟩ := hsample
  obtain ⟨shift, main, hprocedures⟩ := List.length_eq_two.1 hlength
  rw [hprocedures] at hshift
  obtain ⟨hroomy, hsize, hsize', hoffsets⟩ := hshift shift rfl
  obtain ⟨tree, state, resolved, checked, hparse, hresolve, hok, hcheck, hmessages, rfl⟩ :=
    Code.exists_of_accepted? haccepted
  rw [← Text.Utf8.decode_encode nestedText.toList] at hparse
  obtain ⟨code', hlower, hcontained⟩ := contained_of_accepted _ tree hparse state resolved hresolve
    hok checked hcheck hmessages hsizes
  obtain rfl : code' = code := Except.ok.inj (hlower.symm.trans (Code.ok_of_toOption hcode))
  obtain ⟨⟨_, hx64⟩, _, hmips⟩ :=
    hcontained code' List.mem_cons_self [] shift [main] hprocedures hroomy .empty
  rw [hsize] at hx64
  rw [hsize'] at hmips
  exact ⟨checked.tree, code', shift, main, haccepted, hlower, hprocedures, hoffsets, hx64, hmips⟩

/-! ## Sizes that wrap around -/

/-- The pieces of a frame are inside of it and apart if their procedure stays in it. -/
theorem Contained.within_and_apart {machine : Machine} {start : Int64} {scale : Int64 → Int64}
    {symbols : List Symbol} {procedure : Procedure} {placement : Placement} {frame : Range}
    (hcontained : Contained machine scale symbols procedure
      (layOut machine start (procedure.widths.map scale) placement procedure) frame)
    (hnodup : (slots procedure).Nodup) :
    (∀ piece ∈ pieces start (storage scale procedure), piece.range.Within frame) ∧
      (pieces start (storage scale procedure)).Pairwise fun first second =>
        first.range.Apart second.range := by
  have hrange : ∀ piece ∈ pieces start (storage scale procedure),
      (layOut machine start (procedure.widths.map scale) placement procedure piece.slot).range?
        machine piece.width.toInt = some piece.range := by
    intro piece hpiece
    rw [layOut_of_mem hnodup hpiece, Location.range?, if_pos rfl, Piece.range]
  constructor
  · intro piece hpiece
    obtain ⟨range, hrange', hwithin⟩ := hcontained.within (piece.slot, piece.width) (by
      rw [← map_pieces start (storage scale procedure)]
      exact List.mem_map_of_mem hpiece)
    rw [hrange piece hpiece] at hrange'
    cases hrange'
    exact hwithin
  · have hapart := hcontained.apart
    rw [← map_pieces start (storage scale procedure), List.pairwise_map] at hapart
    exact hapart.imp_of_mem fun {first second} hfirst hsecond happart =>
      happart _ (hrange first hfirst) _ (hrange second hsecond)

/-- A record with four fields that are records of another type. -/
def nestText (record field : String) : String :=
  "record " ++ record ++ " \x7b " ++ field ++ " a; " ++ field ++ " b; " ++ field ++ " c; " ++ field ++
  " d; \x7d "

/-- A program with four variables, each of which has a quarter of all the bytes that there are addresses
for, and one variable of one slot. -/
def wideText : String :=
  "record R0 \x7b int a; int b; \x7d " ++
  nestText "R1" "R0" ++ nestText "R2" "R1" ++ nestText "R3" "R2" ++ nestText "R4" "R3" ++
  nestText "R5" "R4" ++ nestText "R6" "R5" ++ nestText "R7" "R6" ++ nestText "R8" "R7" ++
  nestText "R9" "R8" ++ nestText "R10" "R9" ++ nestText "R11" "R10" ++ nestText "R12" "R11" ++
  nestText "R13" "R12" ++ nestText "R14" "R13" ++ nestText "R15" "R14" ++ nestText "R16" "R15" ++
  nestText "R17" "R16" ++ nestText "R18" "R17" ++ nestText "R19" "R18" ++ nestText "R20" "R19" ++
  nestText "R21" "R20" ++ nestText "R22" "R21" ++ nestText "R23" "R22" ++ nestText "R24" "R23" ++
  nestText "R25" "R24" ++ nestText "R26" "R25" ++ nestText "R27" "R26" ++ nestText "R28" "R27" ++
  nestText "R29" "R28" ++
  "void main() \x7b R29 a; R29 b; R29 c; R29 d; int x; x = 1; report x; \x7d"

/-- A record with four fields that are records of another type, and one that is of type `R0`. -/
def chainText (record field : String) : String :=
  "record " ++ record ++ " \x7b " ++ field ++ " a; " ++ field ++ " b; " ++ field ++ " c; " ++ field ++
  " d; R0 e; \x7d "

/-- Records each of which is forty-eight bytes larger than four of the one before. The last one is sixteen
bytes smaller than all the bytes that there are addresses for. Its size wraps around, so whatever is laid
out behind a variable of this type comes to lie sixteen bytes higher up than without the variable. -/
def chainsText : String :=
  "record R0 \x7b int a; int b; int c; int d; int e; int f; \x7d " ++
  chainText "R1" "R0" ++ chainText "R2" "R1" ++ chainText "R3" "R2" ++
  chainText "R4" "R3" ++ chainText "R5" "R4" ++ chainText "R6" "R5" ++
  chainText "R7" "R6" ++ chainText "R8" "R7" ++ chainText "R9" "R8" ++
  chainText "R10" "R9" ++ chainText "R11" "R10" ++ chainText "R12" "R11" ++
  chainText "R13" "R12" ++ chainText "R14" "R13" ++ chainText "R15" "R14" ++
  chainText "R16" "R15" ++ chainText "R17" "R16" ++ chainText "R18" "R17" ++
  chainText "R19" "R18" ++ chainText "R20" "R19" ++ chainText "R21" "R20" ++
  chainText "R22" "R21" ++ chainText "R23" "R22" ++ chainText "R24" "R23" ++
  chainText "R25" "R24" ++ chainText "R26" "R25" ++ chainText "R27" "R26" ++
  chainText "R28" "R27" ++ chainText "R29" "R28"

/-- Storage comes to lie upon other storage if the distances wrap around: the last variable lies in the
last bytes of the first one. The frame is far too small for either of them. -/
theorem not_contained_of_wide :
    ∃ tree code main, Code.accepted? wideText = some tree ∧ Code.lower tree = .ok code ∧
      code.procedures = [main] ∧ main.frameSize = 16 ∧ ∀ placement : Placement,
        ¬ Contained .x64 id tree.declared main (X64.layOut placement main) ⟨-32, -16⟩ ∧
        ¬ Contained .mips Mips.halve tree.declared main (Mips.layOut placement main)
          ⟨-(Mips.frameSize main).toInt, -8⟩ := by
  have hsample : ∃ tree ∈ Code.accepted? wideText, ∃ code ∈ (Code.lower tree).toOption,
      code.procedures.length = 1 ∧ ∀ main ∈ code.procedures.head?, main.frameSize = 16 ∧
        (slots main).Nodup ∧
        (¬ (pieces X64.frameStart (storage id main)).Pairwise fun first second =>
          first.range.Apart second.range) ∧
        ¬ ∀ piece ∈ pieces Mips.frameStart (storage Mips.halve main),
          piece.range.Within ⟨-(Mips.frameSize main).toInt, -8⟩ := by
    unfold Code.accepted? wideText nestText
    repeat rewrite [String.toList_append]
    repeat rewrite [String.toList_ofList]
    decide +kernel
  obtain ⟨tree, haccepted, code, hcode, hlength, hmain⟩ := hsample
  obtain ⟨main, hprocedures⟩ := List.length_eq_one_iff.1 hlength
  rw [hprocedures] at hmain
  obtain ⟨hsize, hnodup, hoverlap, hoverflow⟩ := hmain main rfl
  refine ⟨tree, code, main, haccepted, Code.ok_of_toOption hcode, hprocedures, hsize, ?_⟩
  intro placement
  constructor
  · intro hcontained
    have hlayout : X64.layOut placement main =
        layOut .x64 X64.frameStart (main.widths.map id) placement main := by
      rw [List.map_id]
      rfl
    rw [hlayout] at hcontained
    exact hoverlap (hcontained.within_and_apart hnodup).2
  · intro hcontained
    exact hoverflow (@Contained.within_and_apart _ Mips.frameStart _ _ _ _ _ hcontained hnodup).1

end Shanty.Target
