/-
# How x86-64 memory represents a store

The store of the intermediate code knows blocks with slots in them; the memory of the machine knows
bytes. An activation of a procedure sees its own frame and the data of the program. Every slot of
these lies at an address of its own, and the word there encodes the value in the slot: a number is
encoded by its bits, a string by the address of its label, and an address by the address of the slot
that it leads to. Addresses are kept in address temporaries alone.

The assembler puts the slots of global variables one behind the other, and the frame lies somewhere
else. Nothing more is asked of the machine for no two slots to share a byte, but the distances in the
frame must not wrap around.
-/

import Shanty.Proofs.Code.Machine
import Shanty.Proofs.Target.X64.Machine

namespace Shanty.Target.X64

open Code (Operand Procedure Program Slot Variable Temp Site slotWidth stringLabel)

/-! ## Slots -/

/-- The storage that an activation of a procedure sees: the global variables and its own frame. -/
inductive Owns (program : Program) (procedure : Procedure) (activation : Nat) :
    Block → Int64 → Prop
  | global {var : Variable} (hmem : var ∈ program.globals) :
      Owns program procedure activation (.global var.symbol) var.width
  | inside {slot : Slot} {width : Int64} (hmem : (slot, width) ∈ storage id procedure) :
      Owns program procedure activation (.inside activation slot) width

/-- A place is a slot of the storage that an activation sees. -/
def IsSlot (program : Program) (procedure : Procedure) (activation : Nat) (place : Address) : Prop :=
  ∃ width index, Owns program procedure activation place.block width ∧ index < slotCount width ∧
    place.offset = Int64.ofNat (8 * index)

/-- A block is the storage of an address temporary. -/
def HoldsAddress (procedure : Procedure) (activation : Nat) (block : Block) : Prop :=
  ∃ temp ∈ procedure.addresses, block = .inside activation temp.slot

/-! ## Addresses -/

section Addresses

variable (placement : Placement) (activation : Nat) (scene : Scene 64)

/-- The address at which a block begins. -/
def base? : Block → Option (BitVec 64)
  | .global symbol => (placement (.var symbol)).address? .x64 scene
  | .inside owner slot =>
    if owner = activation then (placement slot).address? .x64 scene else none
  | .nowhere => none

/-- The address of a place. -/
def address? (place : Address) : Option (BitVec 64) :=
  (base? placement activation scene place.block).map (· + place.offset.toBitVec)

end Addresses

/-- A placement in which everything is in its place. -/
abbrev Placed := Target.Placed .x64 frameStart id

/-- The placement when the code of a procedure is emitted, after those before it. -/
def placementOf (program : Program) (start : Placement) (before : List Procedure)
    (procedure : Procedure) : Placement :=
  layOut (before.foldl layOut (layOutGlobals .x64 start program)) procedure

/-- Code is emitted with everything in its place. -/
theorem placed_placementOf {program : Program} (hfitting : program.Fitting)
    (hshaped : program.Shaped) (start : Placement) {before after : List Procedure}
    {procedure : Procedure} (hprocedures : program.procedures = before ++ procedure :: after) :
    Placed program procedure (placementOf program start before procedure) := by
  apply placed_layOut hfitting hshaped hprocedures
  intro placement other
  rw [List.map_id, layOut]

/-! ## The data of a program -/

/-- The labels of global variables have addresses, one slot after the other. -/
def Follow (labels : String → BitVec 64) (data : BitVec 64) (start : Nat)
    (globals : List Variable) : Prop :=
  ∀ index label, (globals.flatMap globalLabels)[index]? = some label →
    labels label = data + BitVec.ofNat 64 (8 * (start + index))

/-- The region of a global variable. -/
def globalRegion (labels : String → BitVec 64) (var : Variable) : Region 64 :=
  ⟨labels (globalLabel var 0), 8 * slotCount var.width⟩

theorem length_globalLabels (var : Variable) : (globalLabels var).length = slotCount var.width := by
  simp [globalLabels, slotCount]

theorem Follow.tail {labels : String → BitVec 64} {data : BitVec 64} {start : Nat} {var : Variable}
    {globals : List Variable} (hfollow : Follow labels data start (var :: globals)) :
    Follow labels data (start + slotCount var.width) globals := by
  intro index label hlabel
  rw [Nat.add_assoc, ← length_globalLabels]
  apply hfollow
  rw [List.flatMap_cons, List.getElem?_append_right (Nat.le_add_right _ _), Nat.add_sub_cancel_left]
  exact hlabel

theorem Follow.region_eq {labels : String → BitVec 64} {data : BitVec 64} {start : Nat}
    {var : Variable} {globals : List Variable}
    (hfollow : Follow labels data start (var :: globals)) (hpos : 0 < slotCount var.width) :
    globalRegion labels var = ⟨data + BitVec.ofNat 64 (8 * start), 8 * slotCount var.width⟩ := by
  have hfirst : (globalLabels var)[0]? = some (globalLabel var 0) := by
    rw [globalLabels, List.getElem?_map]
    exact congrArg (Option.map (globalLabel var)) (List.getElem?_range hpos)
  have hlabel := hfollow 0 (globalLabel var 0) (by
    rw [List.flatMap_cons, List.getElem?_append_left (length_globalLabels var ▸ hpos)]
    exact hfirst)
  rw [globalRegion, hlabel, Nat.add_zero]

/-- A global variable lies in the data. -/
theorem Follow.inside {labels : String → BitVec 64} {data : BitVec 64} {globals : List Variable} :
    ∀ {start : Nat}, Follow labels data start globals → ∀ var ∈ globals,
      (globalRegion labels var).Inside ⟨data + BitVec.ofNat 64 (8 * start),
        8 * (globals.flatMap globalLabels).length⟩ := by
  induction globals with
  | nil => simp
  | cons first globals ih =>
      intro start hfollow var hvar
      rw [List.flatMap_cons, List.length_append, length_globalLabels]
      rcases List.mem_cons.1 hvar with rfl | hvar
      · rcases Nat.eq_zero_or_pos (slotCount var.width) with hzero | hpos
        · intro address haddress
          rw [globalRegion, hzero, Region.mem_mk] at haddress
          omega
        · rw [hfollow.region_eq hpos]
          exact Region.inside_of_size_le (by omega)
      · refine (ih hfollow.tail var hvar).trans ?_
        rw [Nat.mul_add, BitVec.ofNat_add, ← BitVec.add_assoc]
        exact Region.inside_of_le (by omega)

/-- Global variables do not overlap. -/
theorem Follow.pairwise {labels : String → BitVec 64} {data : BitVec 64}
    {globals : List Variable} : ∀ {start : Nat}, Follow labels data start globals →
      8 * (start + (globals.flatMap globalLabels).length) ≤ 2 ^ 64 →
      globals.Pairwise fun var other =>
        (globalRegion labels var).Apart (globalRegion labels other) := by
  induction globals with
  | nil => exact fun _ _ => .nil
  | cons var globals ih =>
      intro start hfollow hbound
      rw [List.flatMap_cons, List.length_append, length_globalLabels] at hbound
      refine .cons (fun other hother => ?_) (ih hfollow.tail (by omega))
      rcases Nat.eq_zero_or_pos (slotCount var.width) with hzero | hpos
      · rw [globalRegion, hzero]
        exact Region.empty_apart
      · rw [hfollow.region_eq hpos]
        apply Region.Apart.mono (Region.apart_of_le (Nat.le_refl _) _) (fun _ h => h)
          ((hfollow.tail.inside other hother).trans _)
        · exact 8 * (globals.flatMap globalLabels).length
        · omega
        · rw [Nat.mul_add]
          exact fun _ h => h

/-- The data of a program and the frame of a procedure in memory. -/
structure Housed (program : Program) (procedure : Procedure) (data : BitVec 64)
    (scene : Scene 64) : Prop where
  /-- The slots of the global variables follow each other. -/
  globals : Follow scene.labels data 0 program.globals
  fits : 8 * (program.globals.flatMap globalLabels).length ≤ 2 ^ 64
  /-- No string lies at the address zero. -/
  strings : ∀ index < program.strings.length, scene.labels (stringLabel index) ≠ 0
  /-- The widths of the pieces of the frame do not wrap around. -/
  roomy : Roomy frameStart (storage id procedure)
  /-- The frame lies outside of the data. -/
  apart : (frameRegion scene.frame frameStart (storage id procedure)).Apart
    ⟨data, 8 * (program.globals.flatMap globalLabels).length⟩

/-! ## Slots apart -/

section Storage

variable {program : Program} {procedure : Procedure} {placement : Placement} {activation : Nat}
  {data : BitVec 64} {scene : Scene 64} {block : Block} {width : Int64}

/-- The region of the slots of a block that begins at an address. -/
def slotRegion (base : BitVec 64) (width : Int64) : Region 64 := ⟨base, 8 * slotCount width⟩

/-- What a procedure has in its frame begins where its piece does. -/
theorem Placed.piece_address (hplaced : Placed program procedure placement) {piece : Piece}
    (hpiece : piece ∈ pieces frameStart (storage id procedure)) :
    (placement piece.slot).address? .x64 scene = some (piece.region scene.frame).start := by
  rw [hplaced.frame piece hpiece]
  rfl

theorem Placed.global_address (hplaced : Placed program procedure placement) {var : Variable}
    (hvar : var ∈ program.globals) :
    (placement var.slot).address? .x64 scene = some (globalRegion scene.labels var).start := by
  rw [hplaced.globals var hvar]
  rfl

/-- Owned storage begins somewhere. -/
theorem Owns.exists_base (hplaced : Placed program procedure placement)
    (howns : Owns program procedure activation block width) (scene : Scene 64) :
    ∃ base, base? placement activation scene block = some base := by
  cases howns with
  | global hvar => exact ⟨_, hplaced.global_address hvar⟩
  | inside hmem =>
      obtain ⟨piece, hpiece, rfl, _⟩ := exists_piece frameStart hmem
      exact ⟨_, (if_pos rfl).trans (hplaced.piece_address hpiece)⟩

/-- The slots of the frame lie in a piece of it. -/
theorem Placed.inside_piece (hplaced : Placed program procedure placement) {slot : Slot}
    (hmem : (slot, width) ∈ storage id procedure) {base : BitVec 64}
    (hbase : base? placement activation scene (.inside activation slot) = some base) :
    ∃ piece ∈ pieces frameStart (storage id procedure), piece.slot = slot ∧
      (slotRegion base width).Inside (piece.region scene.frame) := by
  obtain ⟨piece, hpiece, rfl, rfl⟩ := exists_piece frameStart hmem
  have hstart := ((if_pos rfl).trans (hplaced.piece_address hpiece)).symm.trans hbase
  obtain rfl := Option.some.inj hstart
  exact ⟨piece, hpiece, rfl, Region.inside_of_size_le (slotCount_le _)⟩

theorem Placed.eq_globalRegion (hplaced : Placed program procedure placement) {var : Variable}
    (hvar : var ∈ program.globals) {base : BitVec 64}
    (hbase : base? placement activation scene (.global var.symbol) = some base) :
    slotRegion base var.width = globalRegion scene.labels var := by
  obtain rfl := Option.some.inj ((hplaced.global_address hvar).symm.trans hbase)
  rfl

/-- Two blocks do not share a slot. -/
theorem Owns.apart (hplaced : Placed program procedure placement)
    (hhoused : Housed program procedure data scene)
    (howns : Owns program procedure activation block width) {block' : Block} {width' : Int64}
    (howns' : Owns program procedure activation block' width') (hne : block ≠ block')
    {base base' : BitVec 64} (hbase : base? placement activation scene block = some base)
    (hbase' : base? placement activation scene block' = some base') :
    (slotRegion base width).Apart (slotRegion base' width') := by
  have hdata : ∀ var ∈ program.globals, (globalRegion scene.labels var).Inside
      ⟨data, 8 * (program.globals.flatMap globalLabels).length⟩ := by
    intro var hvar
    have hinside := hhoused.globals.inside var hvar
    rwa [Nat.mul_zero, BitVec.add_zero] at hinside
  cases howns with
  | global hvar =>
      rw [hplaced.eq_globalRegion hvar hbase]
      cases howns' with
      | global hvar' =>
          rw [hplaced.eq_globalRegion hvar' hbase']
          have hpairwise := hhoused.globals.pairwise (by rw [Nat.zero_add]; exact hhoused.fits)
          have hsymm : Std.Symm fun var other : Variable => (globalRegion scene.labels var).Apart
              (globalRegion scene.labels other) := ⟨fun _ _ hapart => hapart.symm⟩
          exact hpairwise.forall hvar hvar' fun heq => hne (by rw [heq])
      | inside hmem =>
          obtain ⟨piece, hpiece, rfl, hinside⟩ := hplaced.inside_piece hmem hbase'
          exact hhoused.apart.symm.mono (hdata _ hvar)
            (hinside.trans (hhoused.roomy.inside scene.frame hpiece))
  | inside hmem =>
      obtain ⟨piece, hpiece, rfl, hinside⟩ := hplaced.inside_piece hmem hbase
      cases howns' with
      | global hvar =>
          rw [hplaced.eq_globalRegion hvar hbase']
          exact hhoused.apart.mono (hinside.trans (hhoused.roomy.inside scene.frame hpiece))
            (hdata _ hvar)
      | inside hmem' =>
          obtain ⟨piece', hpiece', rfl, hinside'⟩ := hplaced.inside_piece hmem' hbase'
          have hbound := hhoused.roomy.bound
          have hstart := hhoused.roomy.start_nonneg
          have hapart := hhoused.roomy.apart scene.frame (by
            simp only [Int64.toNatClampNeg]
            omega) hpiece hpiece' fun heq => hne (by rw [heq])
          exact hapart.mono hinside hinside'

theorem ofNat_toBitVec (number : Nat) :
    (Int64.ofNat number).toBitVec = BitVec.ofNat 64 number := rfl

/-- Two slots do not share a byte. -/
theorem IsSlot.apart (hplaced : Placed program procedure placement)
    (hhoused : Housed program procedure data scene) {place place' : Address}
    (hslot : IsSlot program procedure activation place)
    (hslot' : IsSlot program procedure activation place') (hne : place ≠ place')
    {address address' : BitVec 64} (haddress : address? placement activation scene place = some address)
    (haddress' : address? placement activation scene place' = some address') :
    (Bytes.wordAt address).Apart (Bytes.wordAt address') := by
  obtain ⟨width, index, howns, hindex, hoffset⟩ := hslot
  obtain ⟨width', index', howns', hindex', hoffset'⟩ := hslot'
  obtain ⟨base, hbase, rfl⟩ := Option.map_eq_some_iff.1 haddress
  obtain ⟨base', hbase', rfl⟩ := Option.map_eq_some_iff.1 haddress'
  rw [hoffset, hoffset', ofNat_toBitVec, ofNat_toBitVec]
  have hcount := slotCount_lt width
  have hcount' := slotCount_lt width'
  by_cases hblock : place.block = place'.block
  · -- Inside a block, one of the slots ends before the other one starts.
    rw [← hblock, hbase] at hbase'
    obtain rfl := Option.some.inj hbase'
    have hindices : index ≠ index' := by
      rintro rfl
      apply hne
      cases place
      cases place'
      simp_all
    rcases Nat.lt_or_gt_of_ne hindices with hlt | hlt
    · exact Region.apart_of_le (by rw [Bytes.wordBytes]; omega) (by rw [Bytes.wordBytes]; omega)
    · exact (Region.apart_of_le (by rw [Bytes.wordBytes]; omega)
        (by rw [Bytes.wordBytes]; omega)).symm
  · apply (Owns.apart hplaced hhoused howns howns' hblock hbase hbase').mono
    · exact Region.inside_of_le (by rw [Bytes.wordBytes]; omega)
    · exact Region.inside_of_le (by rw [Bytes.wordBytes]; omega)

end Storage

/-! ## Representation -/

section Representation

variable (program : Program) (procedure : Procedure) (placement : Placement) (activation : Nat)

/-- A word encodes a value. -/
def Encodes (scene : Scene 64) (word : BitVec 64) : Value → Prop
  | .word bits => word = bits.toBitVec
  | .text literal =>
    ∃ index, program.strings[index]? = some literal ∧ word = scene.labels (stringLabel index)
  | .address place => address? placement activation scene place = some word

/-- Memory mirrors a store as an activation of a procedure sees it. -/
structure Mirrors (memory : Memory) (scene : Scene 64) : Prop where
  /-- Each slot is encoded where it lies. -/
  encodes : ∀ place address, IsSlot program procedure activation place →
    address? placement activation scene place = some address →
    Encodes program placement activation scene (scene.bytes.read address) (memory place)
  /-- Only address temporaries hold addresses. -/
  plain : ∀ place, IsSlot program procedure activation place →
    ¬ HoldsAddress procedure activation place.block → ∀ target, memory place ≠ .address target

/-- Memory represents a store: it mirrors the store, and no storage lies upon other storage. -/
structure Represents (data : BitVec 64) (memory : Memory) (scene : Scene 64) : Prop extends
    Mirrors program procedure placement activation memory scene where
  housed : Housed program procedure data scene

end Representation

section Representation

variable {program : Program} {procedure : Procedure} {placement : Placement} {activation : Nat}
  {data : BitVec 64} {memory : Memory} {scene : Scene 64}

/-- Addresses do not depend on the contents of memory. -/
theorem address?_with_bytes (scene : Scene 64) (bytes : Bytes 64) (place : Address) :
    address? placement activation { scene with bytes } place =
      address? placement activation scene place := by
  have hlocation : ∀ location : Location,
      location.address? .x64 { scene with bytes } = location.address? .x64 scene := by
    intro location
    cases location <;> rfl
  cases place with
  | mk block offset => cases block <;> simp [address?, base?, hlocation]

theorem encodes_with_bytes {bytes : Bytes 64} {word : BitVec 64} {value : Value} :
    Encodes program placement activation { scene with bytes } word value ↔
      Encodes program placement activation scene word value := by
  cases value with
  | word => rfl
  | text => rfl
  | address place => simp only [Encodes, address?_with_bytes]

/-- Writing the code of a value into a slot represents the store with the value in this slot. -/
theorem Represents.write (hplaced : Placed program procedure placement)
    (hrepresents : Represents program procedure placement activation data memory scene)
    {place : Address} (hslot : IsSlot program procedure activation place) {address : BitVec 64}
    (haddress : address? placement activation scene place = some address) {word : BitVec 64}
    {value : Value} (hencodes : Encodes program placement activation scene word value)
    (hplain : ¬ HoldsAddress procedure activation place.block → ∀ target, value ≠ .address target) :
    Represents program procedure placement activation data (memory.write place value)
      { scene with bytes := scene.bytes.write address word } where
  housed := ⟨hrepresents.housed.globals, hrepresents.housed.fits, hrepresents.housed.strings,
    hrepresents.housed.roomy, hrepresents.housed.apart⟩
  encodes other address' hother haddress' := by
    rw [address?_with_bytes] at haddress'
    rw [encodes_with_bytes]
    by_cases hsame : other = place
    · subst hsame
      obtain rfl := Option.some.inj (haddress.symm.trans haddress')
      rw [Bytes.read_write (by decide), Memory.write_self]
      exact hencodes
    · rw [Bytes.read_write_of_apart _ _ (hother.apart hplaced hrepresents.housed hslot hsame
        haddress' haddress), Memory.write_of_ne _ _ hsame]
      exact hrepresents.encodes other address' hother haddress'
  plain other hother hnot := by
    by_cases hsame : other = place
    · subst hsame
      rw [Memory.write_self]
      exact hplain hnot
    · rw [Memory.write_of_ne _ _ hsame]
      exact hrepresents.plain other hother hnot

/-- If two slots had the same address, memory would not mirror the store any more once one of them has
been written: the word would be in the other one, too. -/
theorem not_mirrors_write {place other : Address}
    (hother : IsSlot program procedure activation other) (hne : other ≠ place) {address : BitVec 64}
    (haddress : address? placement activation scene other = some address) {word : BitVec 64}
    {value : Value} (hword : ¬ Encodes program placement activation scene word (memory other)) :
    ¬ Mirrors program procedure placement activation (memory.write place value)
      { scene with bytes := scene.bytes.write address word } := by
  intro hmirrors
  have hencodes := hmirrors.encodes other address hother (by rw [address?_with_bytes, haddress])
  rw [encodes_with_bytes, Bytes.read_write (by decide), Memory.write_of_ne _ _ hne] at hencodes
  exact hword hencodes

/-- Where nothing has been written, memory mirrors the empty store. -/
theorem mirrors_empty (hbytes : scene.bytes = fun _ => 0) :
    Mirrors program procedure placement activation .empty scene where
  encodes place address _ _ := by
    rw [hbytes, Bytes.read_zero]
    rfl
  plain _ _ _ _ := by simp [Memory.empty, Value.zero]

end Representation

/-- There is memory for the data of a program and the frame of a procedure: the data lies low and the
frame at the top. -/
theorem exists_housed {program : Program} {procedure : Procedure}
    (hdistinct : (program.globals.flatMap globalLabels).Nodup)
    (hfew : 8 + 8 * (program.globals.flatMap globalLabels).length < 2 ^ 63)
    (hroomy : Roomy frameStart (storage id procedure)) :
    ∃ labels : String → BitVec 64, ∃ data, ∀ bytes,
      Housed program procedure data ⟨0, labels, bytes⟩ := by
  let names := program.globals.flatMap globalLabels
  refine ⟨fun label => BitVec.ofNat 64 (8 + 8 * names.idxOf label), BitVec.ofNat 64 8, ?_⟩
  intro bytes
  constructor
  case globals =>
    intro index label hlabel
    obtain ⟨hindex, rfl⟩ := List.getElem?_eq_some_iff.1 hlabel
    show BitVec.ofNat 64 (8 + 8 * names.idxOf names[index]) = _
    rw [hdistinct.idxOf_getElem, Nat.zero_add, BitVec.ofNat_add]
  case fits => omega
  case strings =>
    intro index _ hzero
    have hle : names.idxOf (stringLabel index) ≤
        (program.globals.flatMap globalLabels).length := List.idxOf_le_length
    have hnat := congrArg BitVec.toNat hzero
    rw [BitVec.toNat_ofNat, Nat.mod_eq_of_lt (by omega)] at hnat
    have hpos : 8 + 8 * names.idxOf (stringLabel index) = 0 := hnat
    omega
  case roomy => exact hroomy
  case apart =>
    have hbound := hroomy.bound
    have hstart : frameStart.toInt = 16 := rfl
    have hlow : frameStart.toNatClampNeg = 16 := rfl
    have htop : frameRegion (0#64) frameStart (storage id procedure) =
        ⟨-BitVec.ofNat 64 (16 + extent (storage id procedure)), extent (storage id procedure)⟩ := by
      rw [frameRegion, hlow, BitVec.zero_sub]
    show (frameRegion (0#64) frameStart (storage id procedure)).Apart _
    rw [htop]
    intro address hframe hdata
    rw [Region.mem_mk, BitVec.toNat_sub, BitVec.toNat_neg, BitVec.toNat_ofNat] at hframe
    rw [Region.mem_mk, BitVec.toNat_sub, BitVec.toNat_ofNat] at hdata
    omega

/-- The empty store is represented somewhere. -/
theorem exists_represents {program : Program} {procedure : Procedure}
    (hdistinct : (program.globals.flatMap globalLabels).Nodup)
    (hfew : 8 + 8 * (program.globals.flatMap globalLabels).length < 2 ^ 63)
    (hroomy : Roomy frameStart (storage id procedure)) (placement : Placement) (activation : Nat) :
    ∃ (labels : String → BitVec 64) (data : BitVec 64) (state : State),
      Represents program procedure placement activation data .empty (state.scene labels) := by
  obtain ⟨labels, data, hhoused⟩ := exists_housed hdistinct hfew hroomy
  let state : State := ⟨fun _ => 0, fun _ => 0, none⟩
  have hscene : state.scene labels = ⟨0, labels, fun _ => 0⟩ := rfl
  refine ⟨labels, data, state, ?_⟩
  rw [hscene]
  exact ⟨mirrors_empty rfl, hhoused _⟩

end Shanty.Target.X64
