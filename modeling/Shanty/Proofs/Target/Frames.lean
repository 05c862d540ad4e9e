/-
# Frames

The frame of a procedure holds its pieces of storage one below the other. If their widths add up
without wrapping around, each piece has a region of its own inside the frame, and two pieces never
share an address. The same holds on every machine, whatever the width of its words and of its slots.

An operand is found through the frame pointer, the labels of the data and the contents of memory.
What lies at an address is found in two steps, through the storage of the address.
-/

import Shanty.Proofs.Code.Fitting
import Shanty.Proofs.Code.Shape
import Shanty.Proofs.Target.Memory
import Shanty.Target.Storage

namespace Shanty.Target

open Code (Operand Procedure Program Slot Variable Temp slotWidth)

variable {width : Nat}

/-! ## Locations -/

theorem Placement.setAll_of_mem {placement : Placement} {places : List (Slot × Location)}
    (hnodup : (places.map (·.1)).Nodup) {slot : Slot} {location : Location}
    (hmem : (slot, location) ∈ places) : placement.setAll places slot = location := by
  have hlookup : places.lookup slot = some location := by
    induction places with
    | nil => cases hmem
    | cons place places ih =>
        rw [List.map_cons, List.nodup_cons] at hnodup
        by_cases heq : slot = place.1
        · rcases List.mem_cons.1 hmem with rfl | hmem
          · rw [List.lookup_cons, beq_self_eq_true]
          · exact absurd (List.mem_map.2 ⟨_, hmem, heq⟩) hnodup.1
        · have hne : (slot == place.1) = false := by simpa using heq
          rcases List.mem_cons.1 hmem with rfl | hmem
          · exact absurd rfl heq
          · rw [List.lookup_cons, hne]
            exact ih hnodup.2 hmem
  show (places.lookup slot).getD _ = location
  rw [hlookup, Option.getD_some]

theorem Placement.setAll_of_not_mem {placement : Placement} {places : List (Slot × Location)}
    {slot : Slot} (hnot : slot ∉ places.map (·.1)) :
    placement.setAll places slot = placement slot := by
  have hlookup : places.lookup slot = none := by
    induction places with
    | nil => rfl
    | cons place places ih =>
        rw [List.map_cons, List.mem_cons, not_or] at hnot
        have hne : (slot == place.1) = false := by simpa using hnot.1
        rw [List.lookup_cons, hne]
        exact ih hnot.2
  show (places.lookup slot).getD _ = placement slot
  rw [hlookup, Option.getD_none]

/-! ## Slots -/

/-- The number of slots of a piece of storage. -/
def slotCount (width : Int64) : Nat := (width / slotWidth).toInt.toNat

theorem slotCount_le (width : Int64) : 8 * slotCount width ≤ width.toNatClampNeg := by
  have hdiv : (width / slotWidth).toInt = width.toInt.tdiv 8 :=
    Int64.toInt_div_of_ne_right width slotWidth (by decide)
  rw [slotCount, hdiv, Int64.toNatClampNeg]
  rcases Int.lt_or_le width.toInt 0 with hneg | hnonneg
  · have hle := Int.tdiv_nonneg (a := -width.toInt) (b := 8) (by omega) (by omega)
    rw [Int.neg_tdiv] at hle
    omega
  · rw [Int.tdiv_eq_ediv_of_nonneg hnonneg]
    omega

theorem slotCount_lt (width : Int64) : 8 * slotCount width < 2 ^ 63 := by
  have hle := slotCount_le width
  have hlt := width.toInt_lt
  rw [Int64.toNatClampNeg] at hle
  omega

theorem slotCount_slotWidth : slotCount slotWidth = 1 := by decide

theorem slotCount_eq {width : Int64} {count : Int} (hwidth : width.toInt = 8 * count) :
    slotCount width = count.toNat := by
  have hdiv : (width / slotWidth).toInt = width.toInt.tdiv 8 :=
    Int64.toInt_div_of_ne_right width slotWidth (by decide)
  rw [slotCount, hdiv, Int.tdiv_eq_of_eq_mul_right (by decide) hwidth]

/-! ## Pieces of a frame -/

/-- The storage of a procedure with the width that a machine gives to each piece, in the order of
the frame. -/
def storage (scale : Int64 → Int64) (procedure : Procedure) : List (Slot × Int64) :=
  let ofVar (var : Variable) := (var.slot, scale var.width)
  let ofTemp (temp : Temp) := (temp.slot, scale temp.width)
  procedure.formals.map ofVar ++ procedure.locals.map ofVar ++ procedure.temps.map ofTemp ++
    procedure.addresses.map ofTemp

theorem map_fst_storage (scale : Int64 → Int64) (procedure : Procedure) :
    (storage scale procedure).map (·.1) = slots procedure := by
  simp [storage, slots, Function.comp_def]

theorem map_snd_storage (scale : Int64 → Int64) (procedure : Procedure) :
    (storage scale procedure).map (·.2) = procedure.widths.map scale := by
  simp [storage, Procedure.widths, Function.comp_def]

/-- A piece of storage in a frame: it begins at a distance below the frame pointer. -/
structure Piece where
  slot : Slot
  distance : Int64
  width : Int64

/-- The storage of a piece with its location on a machine. -/
def Piece.place (machine : Machine) (piece : Piece) : Slot × Location :=
  (piece.slot, .frame machine piece.distance)

/-- The pieces of a frame, if the first one ends at a distance below the frame pointer. -/
def pieces (start : Int64) : List (Slot × Int64) → List Piece
  | [] => []
  | (slot, width) :: rest => ⟨slot, start + width, width⟩ :: pieces (start + width) rest

/-- The number of bytes that some pieces take. -/
def extent (storage : List (Slot × Int64)) : Nat :=
  (storage.map fun entry => entry.2.toNatClampNeg).sum

/-- Pieces that can lie below a distance without wrapping around. -/
structure Roomy (start : Int64) (storage : List (Slot × Int64)) : Prop where
  start_nonneg : 0 ≤ start.toInt
  nonneg : ∀ entry ∈ storage, 0 ≤ entry.2.toInt
  bound : start.toInt + extent storage < 2 ^ 63

instance (start : Int64) (storage : List (Slot × Int64)) : Decidable (Roomy start storage) :=
  decidable_of_iff (0 ≤ start.toInt ∧ (∀ entry ∈ storage, 0 ≤ entry.2.toInt) ∧
      start.toInt + extent storage < 2 ^ 63)
    ⟨fun h => ⟨h.1, h.2.1, h.2.2⟩, fun h => ⟨h.start_nonneg, h.nonneg, h.bound⟩⟩

theorem map_slot_pieces (start : Int64) (storage : List (Slot × Int64)) :
    (pieces start storage).map (·.slot) = storage.map (·.1) := by
  induction storage generalizing start with
  | nil => rfl
  | cons entry rest ih => exact congrArg (entry.1 :: ·) (ih _)

/-- The distances of the pieces are those of the layout. -/
theorem zip_distances (start : Int64) (storage : List (Slot × Int64)) (machine : Machine) :
    (storage.map (·.1)).zip ((distances start (storage.map (·.2))).map (Location.frame machine)) =
      (pieces start storage).map (·.place machine) := by
  induction storage generalizing start with
  | nil => rfl
  | cons entry rest ih => exact congrArg (_ :: ·) (ih _)

theorem Roomy.tail {start : Int64} {slot : Slot} {width : Int64} {rest : List (Slot × Int64)}
    (hroomy : Roomy start ((slot, width) :: rest)) :
    (start + width).toInt = start.toInt + width.toNatClampNeg ∧ Roomy (start + width) rest := by
  have hwidth : 0 ≤ width.toInt := hroomy.nonneg _ List.mem_cons_self
  have hstart := hroomy.start_nonneg
  have hnat : (width.toNatClampNeg : Int) = width.toInt := Int.toNat_of_nonneg hwidth
  have hbound := hroomy.bound
  have hextent : extent ((slot, width) :: rest) = width.toNatClampNeg + extent rest := rfl
  rw [hextent] at hbound
  have hsum : (start + width).toInt = start.toInt + width.toNatClampNeg := by
    rw [Int64.toInt_add, hnat, Int.bmod_eq_of_le (by omega) (by omega)]
  refine ⟨hsum, by omega, fun entry hentry => ?_, by omega⟩
  exact hroomy.nonneg entry (List.mem_cons_of_mem _ hentry)

/-- A piece lies between the start of the frame and its end. -/
theorem Roomy.piece_bounds {start : Int64} {storage : List (Slot × Int64)}
    (hroomy : Roomy start storage) {piece : Piece} (hmem : piece ∈ pieces start storage) :
    0 ≤ piece.width.toInt ∧ start.toInt + piece.width.toInt ≤ piece.distance.toInt ∧
      piece.distance.toInt ≤ start.toInt + extent storage := by
  induction storage generalizing start with
  | nil => cases hmem
  | cons entry rest ih =>
      obtain ⟨slot, width⟩ := entry
      have hextent : extent ((slot, width) :: rest) = width.toNatClampNeg + extent rest := rfl
      have hwidth : 0 ≤ width.toInt := hroomy.nonneg _ List.mem_cons_self
      have hnat : (width.toNatClampNeg : Int) = width.toInt := Int.toNat_of_nonneg hwidth
      obtain ⟨hsum, htail⟩ := hroomy.tail
      rw [hextent]
      rcases List.mem_cons.1 hmem with rfl | hmem
      · refine ⟨hwidth, ?_, ?_⟩ <;> dsimp only <;> omega
      · obtain ⟨hnonneg, hlow, hhigh⟩ := ih htail hmem
        refine ⟨hnonneg, ?_, ?_⟩ <;> omega

/-- Each piece lies below those before it. -/
theorem Roomy.pairwise {start : Int64} {storage : List (Slot × Int64)}
    (hroomy : Roomy start storage) : (pieces start storage).Pairwise fun upper lower =>
      upper.distance.toInt + lower.width.toInt ≤ lower.distance.toInt := by
  induction storage generalizing start with
  | nil => exact .nil
  | cons entry rest ih =>
      obtain ⟨slot, width⟩ := entry
      obtain ⟨_, htail⟩ := hroomy.tail
      refine .cons (fun lower hlower => ?_) (ih htail)
      exact (htail.piece_bounds hlower).2.1

/-- Pieces whose whole frame can be reserved by one instruction, also if its size is rounded up. -/
structure Compact (start : Int64) (storage : List (Slot × Int64)) : Prop extends
    Roomy start storage where
  small : start.toInt + extent storage + 16 ≤ 2 ^ 31

instance (start : Int64) (storage : List (Slot × Int64)) : Decidable (Compact start storage) :=
  decidable_of_iff (Roomy start storage ∧ start.toInt + extent storage + 16 ≤ 2 ^ 31)
    ⟨fun h => ⟨h.1, h.2⟩, fun h => ⟨h.toRoomy, h.small⟩⟩

/-- The widths of pieces add up. -/
theorem toInt_foldr_add {widths : List Int64} {init : Int64}
    (hnonneg : ∀ width ∈ widths, 0 ≤ width.toInt) (hinit : 0 ≤ init.toInt)
    (hbound : init.toInt + (widths.map Int64.toNatClampNeg).sum < 2 ^ 63) :
    (widths.foldr (· + ·) init).toInt =
      init.toInt + (widths.map Int64.toNatClampNeg).sum := by
  induction widths with
  | nil => simp
  | cons width widths ih =>
      rw [List.forall_mem_cons] at hnonneg
      rw [List.map_cons, List.sum_cons] at hbound ⊢
      have hnat : (width.toNatClampNeg : Int) = width.toInt := Int.toNat_of_nonneg hnonneg.1
      rw [List.foldr_cons, Int64.toInt_add, ih hnonneg.2 (by omega),
        Int.bmod_eq_of_le (by omega) (by omega)]
      omega

/-- Rounding a size up does not wrap around as long as there is room for one more multiple. -/
theorem toInt_alignUp_eq {size alignment : Int64} (hpos : 0 < alignment.toInt)
    (hnonneg : 0 ≤ size.toInt) (hbound : size.toInt + alignment.toInt < 2 ^ 63) :
    (Code.alignUp size alignment).toInt =
      (size.toInt + alignment.toInt - 1) / alignment.toInt * alignment.toInt := by
  have hne : alignment.toInt ≠ 0 := by omega
  have hsum : (size + alignment - 1).toInt = size.toInt + alignment.toInt - 1 := by
    have hadd : (size + alignment).toInt = size.toInt + alignment.toInt := by
      rw [Int64.toInt_add, Int.bmod_eq_of_le (by omega) (by omega)]
    rw [Int64.toInt_sub, hadd, show Int64.toInt 1 = 1 from rfl,
      Int.bmod_eq_of_le (by omega) (by omega)]
  have hquotient : ((size + alignment - 1) / alignment).toInt =
      (size.toInt + alignment.toInt - 1) / alignment.toInt := by
    have hminus : alignment ≠ -1 := by
      rintro rfl
      exact absurd hpos (by decide)
    rw [Int64.toInt_div_of_ne_right _ _ hminus, hsum, Int.tdiv_eq_ediv_of_nonneg (by omega)]
  have hlow := Int.emod_nonneg (size.toInt + alignment.toInt - 1) hne
  have hsplit := Int.mul_ediv_add_emod (size.toInt + alignment.toInt - 1) alignment.toInt
  have hhigh := Int.emod_lt_of_pos (size.toInt + alignment.toInt - 1) hpos
  rw [Int.mul_comm] at hsplit
  rw [Code.alignUp, Int64.toInt_mul, hquotient, Int.bmod_eq_of_le (by omega) (by omega)]

/-- A size is rounded up to a multiple by less than it takes to reach the next one. -/
theorem toInt_alignUp {size alignment : Int64} (hpos : 0 < alignment.toInt)
    (hnonneg : 0 ≤ size.toInt) (hbound : size.toInt + alignment.toInt < 2 ^ 63) :
    size.toInt ≤ (Code.alignUp size alignment).toInt ∧
      (Code.alignUp size alignment).toInt < size.toInt + alignment.toInt := by
  have hlow := Int.emod_nonneg (size.toInt + alignment.toInt - 1) (b := alignment.toInt) (by omega)
  have hhigh := Int.emod_lt_of_pos (size.toInt + alignment.toInt - 1) hpos
  have hsplit := Int.mul_ediv_add_emod (size.toInt + alignment.toInt - 1) alignment.toInt
  rw [Int.mul_comm] at hsplit
  rw [toInt_alignUp_eq hpos hnonneg hbound]
  omega

theorem dvd_alignUp {size alignment : Int64} (hpos : 0 < alignment.toInt) (hnonneg : 0 ≤ size.toInt)
    (hbound : size.toInt + alignment.toInt < 2 ^ 63) :
    alignment.toInt ∣ (Code.alignUp size alignment).toInt := by
  rw [toInt_alignUp_eq hpos hnonneg hbound]
  exact Int.dvd_mul_left _ _

/-! ## Regions of pieces -/

/-- The region of a piece in the frame of a frame pointer. -/
def Piece.region (frame : BitVec width) (piece : Piece) : Region width :=
  ⟨frame - BitVec.ofInt width piece.distance.toInt, piece.width.toNatClampNeg⟩

/-- The region of all pieces of a frame. -/
def frameRegion (frame : BitVec width) (start : Int64) (storage : List (Slot × Int64)) :
    Region width :=
  ⟨frame - BitVec.ofNat width (start.toNatClampNeg + extent storage), extent storage⟩

theorem ofInt_toInt {number : Int64} (hnonneg : 0 ≤ number.toInt) :
    BitVec.ofInt width number.toInt = BitVec.ofNat width number.toNatClampNeg := by
  rw [← BitVec.ofInt_natCast]
  exact congrArg _ (Int.toNat_of_nonneg hnonneg).symm

/-- The region of a piece, counted from the lowest address of the frame. -/
theorem Roomy.region_eq {start : Int64} {storage : List (Slot × Int64)}
    (hroomy : Roomy start storage) (frame : BitVec width) {piece : Piece}
    (hmem : piece ∈ pieces start storage) :
    piece.region frame = ⟨(frameRegion frame start storage).start + BitVec.ofNat width
      (start.toNatClampNeg + extent storage - piece.distance.toNatClampNeg),
        piece.width.toNatClampNeg⟩ := by
  obtain ⟨hwidth, hlow, hhigh⟩ := hroomy.piece_bounds hmem
  have hstart := hroomy.start_nonneg
  rw [Piece.region, frameRegion, ofInt_toInt (by omega), Region.sub_ofNat_eq]
  simp only [Int64.toNatClampNeg]
  omega

theorem Roomy.inside {start : Int64} {storage : List (Slot × Int64)}
    (hroomy : Roomy start storage) (frame : BitVec width) {piece : Piece}
    (hmem : piece ∈ pieces start storage) :
    (piece.region frame).Inside (frameRegion frame start storage) := by
  obtain ⟨hwidth, hlow, hhigh⟩ := hroomy.piece_bounds hmem
  have hstart := hroomy.start_nonneg
  rw [hroomy.region_eq frame hmem]
  apply Region.inside_of_le
  simp only [Int64.toNatClampNeg]
  omega

/-- Two pieces of a frame that fits into memory are apart. -/
theorem Roomy.apart {start : Int64} {storage : List (Slot × Int64)}
    (hroomy : Roomy start storage) (frame : BitVec width)
    (hfits : start.toNatClampNeg + extent storage ≤ 2 ^ width) {first second : Piece}
    (hfirst : first ∈ pieces start storage) (hsecond : second ∈ pieces start storage)
    (hne : first.slot ≠ second.slot) : (first.region frame).Apart (second.region frame) := by
  have hstart := hroomy.start_nonneg
  have hbelow : ∀ upper ∈ pieces start storage, ∀ lower ∈ pieces start storage,
      upper.distance.toInt + lower.width.toInt ≤ lower.distance.toInt →
        (upper.region frame).Apart (lower.region frame) := by
    intro upper hupper lower hlower hle
    have hbounds := hroomy.piece_bounds hupper
    have hbounds' := hroomy.piece_bounds hlower
    rw [hroomy.region_eq frame hupper, hroomy.region_eq frame hlower]
    apply Region.Apart.symm
    apply Region.apart_of_le <;> simp only [Int64.toNatClampNeg] at * <;> omega
  have hpairwise : (pieces start storage).Pairwise fun first second =>
      (first.region frame).Apart (second.region frame) :=
    hroomy.pairwise.imp_of_mem fun {upper lower} hupper hlower => hbelow upper hupper lower hlower
  have hsymm : Std.Symm fun first second : Piece =>
      (first.region frame).Apart (second.region frame) := ⟨fun _ _ hapart => hapart.symm⟩
  exact hpairwise.forall hfirst hsecond fun heq => hne (congrArg Piece.slot heq)

/-! ## The frames of a program -/

/-- The pieces of storage of a procedure in shape have distinct slots. -/
theorem nodup_slots {program : Program} {procedure : Procedure}
    (hfitting : procedure.Fitting program) (hshaped : procedure.Shaped program) :
    (slots procedure).Nodup := by
  have hvars : ((procedure.formals ++ procedure.locals).map (·.slot)).Nodup := by
    have hnodup := hshaped.vars
    rw [List.map_append, List.nodup_append] at hnodup
    have hmap : (procedure.formals ++ procedure.locals).map (·.slot) =
        ((procedure.formals ++ procedure.locals).map (·.symbol)).map Slot.var := by
      simp [Variable.slot, Function.comp_def]
    rw [hmap]
    exact hnodup.2.1.map fun _ _ heq => Slot.var.inj heq
  have hslots : slots procedure = (procedure.formals ++ procedure.locals).map (·.slot) ++
      (procedure.temps ++ procedure.addresses).map (·.slot) := by
    simp [slots]
  rw [hslots, List.nodup_append]
  refine ⟨hvars, hfitting.temps, ?_⟩
  intro slot hslot other hother heq
  obtain ⟨var, _, rfl⟩ := List.mem_map.1 hslot
  obtain ⟨temp, _, rfl⟩ := List.mem_map.1 hother
  cases heq

theorem layOut_eq (machine : Machine) (start : Int64) (scale : Int64 → Int64)
    (placement : Placement) (procedure : Procedure) :
    layOut machine start (procedure.widths.map scale) placement procedure =
      placement.setAll ((pieces start (storage scale procedure)).map (·.place machine)) := by
  rw [layOut, ← map_fst_storage scale, ← map_snd_storage, zip_distances]

theorem map_fst_place (machine : Machine) (start : Int64) (scale : Int64 → Int64)
    (procedure : Procedure) :
    ((pieces start (storage scale procedure)).map (·.place machine)).map (·.1) =
      slots procedure := by
  rw [List.map_map, ← map_fst_storage scale, ← map_slot_pieces start]
  rfl

/-- Laying out a procedure puts its pieces where they belong. -/
theorem layOut_of_mem {machine : Machine} {start : Int64} {scale : Int64 → Int64}
    {placement : Placement} {procedure : Procedure} (hnodup : (slots procedure).Nodup)
    {piece : Piece} (hmem : piece ∈ pieces start (storage scale procedure)) :
    layOut machine start (procedure.widths.map scale) placement procedure piece.slot =
      .frame machine piece.distance := by
  rw [layOut_eq]
  apply Placement.setAll_of_mem
  · rw [map_fst_place]
    exact hnodup
  · exact List.mem_map.2 ⟨piece, hmem, rfl⟩

/-- Laying out a procedure leaves all other storage where it is. -/
theorem layOut_of_not_mem {machine : Machine} {start : Int64} {scale : Int64 → Int64}
    {placement : Placement} {procedure : Procedure} {slot : Slot}
    (hnot : slot ∉ slots procedure) :
    layOut machine start (procedure.widths.map scale) placement procedure slot =
      placement slot := by
  rw [layOut_eq]
  apply Placement.setAll_of_not_mem
  rw [map_fst_place]
  exact hnot

/-- Every piece of storage has its place in the frame. -/
theorem exists_piece (start : Int64) {storage : List (Slot × Int64)} {slot : Slot} {width : Int64}
    (hmem : (slot, width) ∈ storage) :
    ∃ piece ∈ pieces start storage, piece.slot = slot ∧ piece.width = width := by
  induction storage generalizing start with
  | nil => cases hmem
  | cons entry rest ih =>
      rcases List.mem_cons.1 hmem with rfl | hmem
      · exact ⟨_, List.mem_cons_self, rfl, rfl⟩
      · obtain ⟨piece, hpiece, hboth⟩ := ih _ hmem
        exact ⟨piece, List.mem_cons_of_mem _ hpiece, hboth⟩

/-- The pieces of a frame come in the order of its storage. -/
theorem getElem?_pieces (start : Int64) {storage : List (Slot × Int64)} {index : Nat} {slot : Slot}
    {width : Int64} (hentry : storage[index]? = some (slot, width)) :
    ∃ piece, (pieces start storage)[index]? = some piece ∧ piece.slot = slot ∧
      piece.width = width := by
  induction storage generalizing start index with
  | nil => cases hentry
  | cons entry rest ih =>
      cases index with
      | zero =>
          obtain rfl := Option.some.inj hentry
          exact ⟨_, rfl, rfl, rfl⟩
      | succ index => exact ih _ hentry

/-! ## Placements -/

/-- A placement in which the global variables have their labels and a procedure has its frame. -/
structure Placed (machine : Machine) (start : Int64) (scale : Int64 → Int64) (program : Program)
    (procedure : Procedure) (placement : Placement) : Prop where
  globals : ∀ var ∈ program.globals, placement var.slot = .data machine (globalLabel var 0)
  frame : ∀ piece ∈ pieces start (storage scale procedure),
    placement piece.slot = .frame machine piece.distance

/-- A global variable is no part of the frame of a procedure. -/
theorem slot_not_mem_slots {program : Program} {procedure : Procedure}
    (hshaped : procedure.Shaped program) {var : Variable} (hvar : var ∈ program.globals) :
    var.slot ∉ slots procedure := by
  have hnodup := hshaped.vars
  rw [List.map_append, List.nodup_append] at hnodup
  intro hmem
  have hslots : slots procedure = (procedure.formals ++ procedure.locals).map (·.slot) ++
      (procedure.temps ++ procedure.addresses).map (·.slot) := by
    simp [slots]
  rw [hslots, List.mem_append] at hmem
  rcases hmem with hmem | hmem
  · obtain ⟨other, hother, heq⟩ := List.mem_map.1 hmem
    have hsymbol : other.symbol = var.symbol := Slot.var.inj heq
    exact hnodup.2.2 _ (List.mem_map_of_mem hvar) _ (List.mem_map_of_mem hother) hsymbol.symm
  · obtain ⟨temp, _, heq⟩ := List.mem_map.1 hmem
    cases heq

/-- Laying out one procedure after the other puts everything in its place. -/
theorem placed_layOut {machine : Machine} {start : Int64} {scale : Int64 → Int64}
    {program : Program} (hfitting : program.Fitting) (hshaped : program.Shaped)
    {before after : List Procedure} {procedure : Procedure}
    (hprocedures : program.procedures = before ++ procedure :: after)
    {place : Placement → Procedure → Placement} {initial : Placement}
    (hplace : ∀ placement procedure, place placement procedure =
      layOut machine start (procedure.widths.map scale) placement procedure) :
    Placed machine start scale program procedure
      (place (before.foldl place (layOutGlobals machine initial program)) procedure) := by
  have hmem : procedure ∈ program.procedures := by simp [hprocedures]
  have hglobals : ∀ (done : List Procedure) (placement : Placement),
      (∀ procedure ∈ done, procedure ∈ program.procedures) →
      (∀ var ∈ program.globals, placement var.slot = .data machine (globalLabel var 0)) →
      ∀ var ∈ program.globals, done.foldl place placement var.slot =
        .data machine (globalLabel var 0) := by
    intro done
    induction done with
    | nil => exact fun placement _ hplacement => hplacement
    | cons first done ih =>
        intro placement hdone hplacement
        rw [List.forall_mem_cons] at hdone
        apply ih (place placement first) hdone.2
        intro var hvar
        rw [hplace, layOut_of_not_mem (slot_not_mem_slots (hshaped first hdone.1) hvar)]
        exact hplacement var hvar
  have hfirst : ∀ var ∈ program.globals, layOutGlobals machine initial program var.slot =
      .data machine (globalLabel var 0) := by
    intro var hvar
    apply Placement.setAll_of_mem
    · have hnodup := (hshaped procedure hmem).vars
      rw [List.map_append, List.nodup_append] at hnodup
      have hmap : (program.globals.map fun var => (var.slot, Location.data machine
          (globalLabel var 0))).map (·.1) = (program.globals.map (·.symbol)).map Slot.var := by
        simp [Variable.slot, Function.comp_def]
      rw [hmap]
      exact hnodup.1.map fun _ _ heq => Slot.var.inj heq
    · exact List.mem_map_of_mem hvar
  constructor
  · have hall := hglobals (before ++ [procedure]) (layOutGlobals machine initial program) (by
      intro other hother
      rw [hprocedures]
      simp only [List.mem_append, List.mem_cons, List.not_mem_nil, or_false] at hother ⊢
      tauto) hfirst
    rw [List.foldl_append] at hall
    exact hall
  · intro piece hpiece
    rw [hplace]
    exact layOut_of_mem (nodup_slots (hfitting.procedures _ hmem) (hshaped _ hmem)) hpiece

/-! ## Operands in memory -/

/-- What operands are found through: the frame pointer, the labels of the data and memory. -/
structure Scene (width : Nat) where
  frame : BitVec width
  labels : String → BitVec width
  bytes : Bytes width

/-- The address of a location on a machine. -/
def Location.address? (machine : Machine) (scene : Scene width) : Location → Option (BitVec width)
  | .frame own distance =>
    if own = machine then some (scene.frame - BitVec.ofInt width distance.toInt) else none
  | .data own label => if own = machine then some (scene.labels label) else none
  | .unset | .chosen _ => none

/-- The word of a constant in the code, which must fit into 32 bits. -/
def immediate? (width : Nat) (text : String) : Option (BitVec width) :=
  ((Text.readInt? text).filter fun number => -2 ^ 31 ≤ number && number < 2 ^ 31).map
    (BitVec.ofInt width)

section Operands

variable (machine : Machine) (placement : Placement) (scene : Scene width)

/-- The address of what an operand stands for. -/
def residence? : Operand → Option (BitVec width)
  | .var var => (placement var.slot).address? machine scene
  | .temp temp => (placement temp.slot).address? machine scene
  | .address temp => ((placement temp.slot).address? machine scene).map scene.bytes.read
  | .constant _ | .string _ | .nothing => none

/-- The word of an operand. -/
def content? (operand : Operand) : Option (BitVec width) :=
  match operand with
  | .constant text => immediate? width text
  | .string index => some (scene.labels (Code.stringLabel index))
  | operand => (residence? machine placement scene operand).map scene.bytes.read

/-- What is handed over for an operand: the address of a record and the word of anything else. -/
def handed? (isRecord : Bool) (operand : Operand) : Option (BitVec width) :=
  if isRecord then residence? machine placement scene operand
  else content? machine placement scene operand

end Operands

/-- A constant of a program fits into the code. -/
theorem immediate?_of_small {value : Nat} (hsmall : value ≤ Token.maxInt) :
    immediate? width (toString value) = some (BitVec.ofInt width value) := by
  have hbound : value ≤ 2147483647 := hsmall
  have hread : Text.readInt? (toString value) = some (value : Int) := Text.readInt?_repr value
  rw [immediate?, hread, Option.filter_some, if_pos (by simp; omega)]
  rfl

section Placed

variable {machine : Machine} {start : Int64} {scale : Int64 → Int64} {program : Program}
  {procedure : Procedure} {placement : Placement} {operand : Operand} {size : Int64}

/-- What quads can refer to and is stored lies somewhere. -/
theorem Placed.exists_residence (hplaced : Placed machine start scale program procedure placement)
    (hstores : (program.site procedure).Stores size operand) (scene : Scene width) :
    ∃ address, residence? machine placement scene operand = some address := by
  have hframe : ∀ (slot : Slot) (size : Int64), (slot, size) ∈ storage scale procedure →
      ∃ address, (placement slot).address? machine scene = some address := by
    intro slot size hmem
    obtain ⟨piece, hpiece, rfl, _⟩ := exists_piece start hmem
    rw [hplaced.frame piece hpiece, Location.address?, if_pos rfl]
    exact ⟨_, rfl⟩
  obtain ⟨hhas, hlocated⟩ := hstores
  cases operand with
  | var var =>
      rcases hhas.1 with hglobal | hlocal
      · rw [residence?, hplaced.globals var hglobal, Location.address?, if_pos rfl]
        exact ⟨_, rfl⟩
      · have hmem : var ∈ procedure.formals ++ procedure.locals := hlocal
        rw [List.mem_append] at hmem
        apply hframe var.slot (scale var.width)
        simp only [storage, List.mem_append, List.mem_map]
        exact .inl (.inl (hmem.imp (fun hmem => ⟨var, hmem, rfl⟩) fun hmem => ⟨var, hmem, rfl⟩))
  | temp temp =>
      apply hframe temp.slot (scale temp.width)
      simp only [storage, List.mem_append, List.mem_map]
      exact .inl (.inr ⟨temp, hhas.1, rfl⟩)
  | address temp =>
      have hmem : temp ∈ procedure.addresses := hhas
      obtain ⟨address, haddress⟩ := hframe temp.slot (scale temp.width) (by
        simp only [storage, List.mem_append, List.mem_map]
        exact .inr ⟨temp, hmem, rfl⟩)
      rw [residence?, haddress]
      exact ⟨_, rfl⟩
  | constant => cases hlocated
  | string => cases hlocated
  | nothing => exact hhas.elim

/-- What can be passed can be handed over. -/
theorem Placed.exists_handed (hplaced : Placed machine start scale program procedure placement)
    {type : Ty} (hpasses : (program.site procedure).Passes type operand) (scene : Scene width) :
    ∃ word, handed? machine placement scene type.isRecord operand = some word := by
  obtain ⟨_, hhas, hlocated⟩ := hpasses
  by_cases hrecord : type.isRecord = true
  · rw [handed?, if_pos hrecord]
    exact hplaced.exists_residence ⟨hhas, hlocated hrecord⟩ scene
  · rw [handed?, if_neg hrecord]
    have hread : operand.isLocated = true →
        ∃ word, (residence? machine placement scene operand).map scene.bytes.read = some word := by
      intro hlocated
      obtain ⟨address, haddress⟩ := hplaced.exists_residence ⟨hhas, hlocated⟩ scene
      rw [haddress]
      exact ⟨_, rfl⟩
    cases operand with
    | constant text =>
        obtain ⟨_, value, hsmall, rfl⟩ := hhas
        exact ⟨_, immediate?_of_small hsmall⟩
    | string index => exact ⟨_, rfl⟩
    | var => exact hread rfl
    | temp => exact hread rfl
    | address => exact hread rfl
    | nothing => exact hhas.elim

end Placed

end Shanty.Target
