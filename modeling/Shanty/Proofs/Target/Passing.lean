/-
# Passing arguments

The first arguments of a call are passed in registers, the others on the stack, each one a word below
the one before. A record is passed by its address and copied by the procedure that receives it. Nothing
of this depends on the machine but the width of a word, the number of registers and whether the stack
is padded, so it is described here once, in terms of what the parties of a call see.

The caller puts the arguments down one by one, and each stays in its place while the next ones are
put down. The procedure enters its frame right below them and takes them one by one, and those that
it has not yet taken stay in place meanwhile.
-/

import Shanty.Proofs.Target.Execution
import Shanty.Proofs.Target.Frames

namespace Shanty.Target

open Bytes (span wordBytes wordsAt wordAt SameOutside)

variable {width : Nat}

/-! ## The parties of a call -/

/-- What is in some registers, counted from zero. -/
def held {Reg : Type} (registers : List Reg) (regs : Reg → BitVec width) (index : Nat) :
    BitVec width :=
  registers[index]?.elim 0 regs

theorem held_eq {Reg : Type} {registers : List Reg} {regs : Reg → BitVec width} {index : Nat}
    {reg : Reg} (hreg : registers[index]? = some reg) : held registers regs index = regs reg := by
  rw [held, hreg]
  rfl

theorem held_congr {Reg : Type} {registers : List Reg} {regs regs' : Reg → BitVec width}
    (hregs : ∀ reg ∈ registers, regs' reg = regs reg) : held registers regs' = held registers regs := by
  funext index
  rw [held, held]
  cases hreg : registers[index]? with
  | none => rfl
  | some reg => exact hregs reg (List.mem_of_getElem? hreg)

theorem held_update {Reg : Type} {registers : List Reg} {regs regs' : Reg → BitVec width}
    (hnodup : registers.Nodup) {index : Nat} {reg : Reg} (hreg : registers[index]? = some reg)
    (hregs : ∀ other ∈ registers, other ≠ reg → regs' other = regs other) :
    held registers regs' = Function.update (held registers regs) index (regs' reg) := by
  funext other
  by_cases heq : other = index
  · rw [heq, Function.update_self, held_eq hreg]
  · rw [Function.update_of_ne heq, held, held]
    cases hother : registers[other]? with
    | none => rfl
    | some reg' =>
        apply hregs reg' (List.mem_of_getElem? hother)
        rintro rfl
        have hlt := (List.getElem?_eq_some_iff.1 hother).1
        exact heq ((List.getElem?_inj hlt hnodup).1 (hother.trans hreg.symm))

/-- What the parties of a call see of a machine. -/
structure Snapshot (width : Nat) where
  /-- The registers of the first arguments, counted from zero. -/
  args : Nat → BitVec width
  stack : BitVec width
  frame : BitVec width
  bytes : Bytes width

namespace Snapshot

/-- What operands are found through. -/
def scene (labels : String → BitVec width) (view : Snapshot width) : Scene width :=
  ⟨view.frame, labels, view.bytes⟩

/-- The place below which arguments are pushed. -/
def top (padding : Nat) (view : Snapshot width) : BitVec width :=
  view.stack - BitVec.ofNat width padding

/-- Puts down the argument with an index: in a register if there is one for it, and else on the stack,
which is padded before the first one. -/
def pass (registers padding index : Nat) (word : BitVec width) (view : Snapshot width) :
    Snapshot width :=
  if index < registers then { view with args := Function.update view.args index word }
  else
    let stack := (if index = registers then view.top padding else view.stack) - span width 1
    { view with stack, bytes := view.bytes.write stack word }

/-- The argument with an index, if those on the stack lie below some place. -/
def argument (registers : Nat) (top : BitVec width) (view : Snapshot width) (index : Nat) :
    BitVec width :=
  if index < registers then view.args index
  else view.bytes.read (top - span width (index + 1 - registers))

/-- Takes the argument with an index out of some: as a word, or as the address of some slots, which
are copied. Those on the stack lie above the frame, the last one lowest. -/
def receive (registers count index : Nat) (target : BitVec width) (slots? : Option Nat)
    (view : Snapshot width) : Snapshot width :=
  let word := if index < registers then view.args index
    else view.bytes.read (view.frame + span width (count - (index + 1)))
  { view with bytes := slots?.elim (view.bytes.write target word) (view.bytes.copy word target) }

end Snapshot

/-! ## Putting arguments down -/

/-- Some arguments have been put down, and nothing else has changed. -/
structure Passed (registers padding : Nat) (start : Snapshot width) (words : List (BitVec width))
    (view : Snapshot width) : Prop where
  frame : view.frame = start.frame
  stack : view.stack = if words.length ≤ registers then start.stack
    else start.top padding - span width (words.length - registers)
  bytes : SameOutside (wordsAt (start.top padding - span width (words.length - registers))
    (words.length - registers)) start.bytes view.bytes
  args : ∀ index word, words[index]? = some word →
    view.argument registers (start.top padding) index = word

section Passed

variable {registers padding : Nat} {start view : Snapshot width} {words : List (BitVec width)}

theorem passed_nil : Passed registers padding start [] start where
  frame := rfl
  stack := by simp
  bytes := .refl _ _
  args := by simp

theorem sub_span (address : BitVec width) (near far : Nat) :
    address - span width near = address - span width (near + far) + span width far := by
  rw [Bytes.span_add]
  grind

/-- A register takes the next argument. -/
theorem Passed.pass_register (hpassed : Passed registers padding start words view)
    (hindex : words.length < registers) (word : BitVec width) :
    Passed registers padding start (words ++ [word])
      (view.pass registers padding words.length word) := by
  have hview : view.pass registers padding words.length word =
      { view with args := Function.update view.args words.length word } := if_pos hindex
  have hnone : words.length - registers = 0 := by omega
  have hnone' : (words ++ [word]).length - registers = 0 := by
    rw [List.length_append, List.length_singleton]
    omega
  rw [hview]
  constructor
  case frame => exact hpassed.frame
  case stack =>
    rw [if_pos (by rw [List.length_append, List.length_singleton]; omega)]
    exact hpassed.stack.trans (if_pos (by omega))
  case bytes =>
    have hbytes := hpassed.bytes
    rw [hnone] at hbytes
    rw [hnone']
    exact hbytes
  case args =>
    intro index word' hword
    have hlt : index < registers := by
      have hlength := (List.getElem?_eq_some_iff.1 hword).1
      rw [List.length_append, List.length_singleton] at hlength
      omega
    rw [Snapshot.argument, if_pos hlt]
    show Function.update view.args words.length word index = word'
    by_cases hlast : index = words.length
    · subst hlast
      rw [List.getElem?_concat_length] at hword
      rw [Function.update_self]
      exact Option.some.inj hword
    · rw [Function.update_of_ne hlast]
      have hless : index < words.length := by
        have hlength := (List.getElem?_eq_some_iff.1 hword).1
        rw [List.length_append, List.length_singleton] at hlength
        omega
      rw [List.getElem?_append_left hless] at hword
      have harg := hpassed.args index word' hword
      rwa [Snapshot.argument, if_pos hlt] at harg

/-- The stack takes the next argument. -/
theorem Passed.pass_stack (hwidth : 8 ∣ width) (hpassed : Passed registers padding start words view)
    (hindex : registers ≤ words.length) (word : BitVec width)
    (hroom : wordBytes width * (words.length + 1 - registers) ≤ 2 ^ width) :
    Passed registers padding start (words ++ [word])
      (view.pass registers padding words.length word) := by
  obtain ⟨count, hcount⟩ := Nat.exists_eq_add_of_le hindex
  have hpushed : words.length - registers = count := by omega
  have hpushed' : (words ++ [word]).length - registers = count + 1 := by
    rw [List.length_append, List.length_singleton]
    omega
  let slot := start.top padding - span width (count + 1)
  have hstack : (if words.length = registers then view.top padding else view.stack) -
      span width 1 = slot := by
    have hbase : (if words.length = registers then view.top padding else view.stack) =
        start.top padding - span width count := by
      have hview := hpassed.stack
      by_cases hfirst : words.length = registers
      · rw [if_pos (by omega)] at hview
        have hzero : count = 0 := by omega
        rw [if_pos hfirst, hzero, Snapshot.top, hview, Bytes.span_zero]
        exact (BitVec.sub_zero _).symm
      · rw [if_neg (by omega), hpushed] at hview
        rw [if_neg hfirst, hview]
    rw [hbase]
    show _ = start.top padding - span width (count + 1)
    rw [Bytes.span_add]
    grind
  have hview : view.pass registers padding words.length word =
      { view with stack := slot, bytes := view.bytes.write slot word } := by
    rw [Snapshot.pass, if_neg (by omega)]
    simp only [hstack]
  rw [hview]
  rw [show words.length + 1 - registers = count + 1 by omega] at hroom
  have hslot : (wordAt slot).Inside (wordsAt slot (count + 1)) :=
    Region.inside_of_size_le (Nat.le_mul_of_pos_right _ count.succ_pos)
  constructor
  case frame => exact hpassed.frame
  case stack =>
    rw [if_neg (by rw [List.length_append, List.length_singleton]; omega), hpushed']
  case bytes =>
    rw [hpushed']
    have hbefore := hpassed.bytes
    rw [hpushed, sub_span _ count 1] at hbefore
    refine (hbefore.mono ?_).trans ((Bytes.write_sameOutside _ _ _).mono hslot)
    have hone : wordBytes width * 1 + wordBytes width * count = wordBytes width * (count + 1) := by
      rw [← Nat.mul_add, Nat.add_comm]
    exact Region.inside_of_le (Nat.le_of_eq hone)
  case args =>
    intro index word' hword
    have hlength := (List.getElem?_eq_some_iff.1 hword).1
    rw [List.length_append, List.length_singleton] at hlength
    rw [Snapshot.argument]
    by_cases hlast : index = words.length
    · subst hlast
      rw [List.getElem?_concat_length] at hword
      rw [if_neg (by omega), show words.length + 1 - registers = count + 1 by omega,
        Bytes.read_write hwidth]
      exact Option.some.inj hword
    · have hless : index < words.length := by omega
      rw [List.getElem?_append_left hless] at hword
      have harg := hpassed.args index word' hword
      rw [Snapshot.argument] at harg
      by_cases hlt : index < registers
      · rw [if_pos hlt] at harg ⊢
        exact harg
      · rw [if_neg hlt] at harg ⊢
        rw [Bytes.read_write_of_apart, harg]
        -- Seen from the new word, the earlier one lies some words above.
        obtain ⟨above, habove⟩ := Nat.exists_eq_add_of_le (show index + 1 - registers ≤ count by omega)
        have hplace : start.top padding - span width (index + 1 - registers) =
            slot + span width (above + 1) := by
          rw [sub_span _ _ (above + 1)]
          show _ - span width (index + 1 - registers + (above + 1)) + _ = _
          rw [show index + 1 - registers + (above + 1) = count + 1 by omega]
        rw [hplace]
        apply Region.Apart.symm
        have hbelow := Nat.mul_le_mul_left (wordBytes width) (show above + 2 ≤ count + 1 by omega)
        exact Region.apart_of_size_le (by rw [Nat.mul_succ]; omega)
          (by rw [Nat.mul_succ] at hbelow; omega)

/-- The next argument is put down, and those before it stay where they are. -/
theorem Passed.pass (hwidth : 8 ∣ width) (hpassed : Passed registers padding start words view)
    (word : BitVec width) (hroom : wordBytes width * (words.length + 1 - registers) ≤ 2 ^ width) :
    Passed registers padding start (words ++ [word])
      (view.pass registers padding words.length word) := by
  by_cases hindex : words.length < registers
  · exact hpassed.pass_register hindex word
  · exact hpassed.pass_stack hwidth (by omega) word hroom

/-- The stack after all arguments have been put down. It is padded only for arguments on it. -/
theorem Passed.stack_eq (hpassed : Passed registers padding start words view)
    (hpadding : words.length ≤ registers → padding = 0) :
    view.stack = start.stack - BitVec.ofNat width (padding +
      wordBytes width * (words.length - registers)) := by
  rw [hpassed.stack, BitVec.ofNat_add]
  by_cases hfew : words.length ≤ registers
  · rw [if_pos hfew, hpadding hfew, show words.length - registers = 0 by omega, Nat.mul_zero]
    grind
  · rw [if_neg hfew, Snapshot.top, span]
    grind

end Passed

/-! ## Taking arguments -/

/-- A procedure has entered its frame, right below what its caller has on the stack. At most two words
of memory have changed, which lie there, too. -/
structure Entered (before after : Snapshot width) : Prop where
  frame : after.frame = before.stack
  args : after.args = before.args
  bytes : SameOutside (.below before.stack (wordBytes width * 2)) before.bytes after.bytes

/-- Where a formal parameter lies, and how many slots are copied there if it is a record. -/
structure Home (width : Nat) where
  target : BitVec width
  slots? : Option Nat

namespace Home

/-- The words of a formal parameter. -/
def region (home : Home width) : Region width := wordsAt home.target (home.slots?.getD 1)

/-- A formal parameter has got an argument: the word itself, or a copy of the slots at its address. -/
def Got (home : Home width) (origin bytes : Bytes width) (word : BitVec width) : Prop :=
  home.slots?.elim (bytes.read home.target = word) fun count => ∀ slot < count,
    bytes.read (home.target + span width slot) = origin.read (word + span width slot)

theorem Got.keep {home : Home width} {origin bytes bytes' : Bytes width} {word : BitVec width}
    (hgot : home.Got origin bytes word) {region : Region width}
    (hsame : SameOutside region bytes bytes') (hapart : home.region.Apart region) :
    home.Got origin bytes' word := by
  obtain ⟨target, slots?⟩ := home
  cases slots? with
  | none =>
      have hinside : (wordAt target).Inside (wordsAt target 1) :=
        Region.inside_of_size_le (Nat.le_of_eq (Nat.mul_one _).symm)
      exact (hsame.read_eq (hapart.mono hinside fun _ h => h)).trans hgot
  | some count =>
      intro slot hslot
      have hinside := @Bytes.wordAt_inside width target slot count hslot
      exact (hsame.read_eq (hapart.mono hinside fun _ h => h)).trans (hgot slot hslot)

end Home

/-- The formal parameters of a procedure lie in its frame, and no two of them overlap. -/
structure Hosts (frame : BitVec width) (depth : Nat) (homes : List (Home width)) : Prop where
  fits : ∀ home ∈ homes, wordBytes width * home.slots?.getD 1 ≤ 2 ^ width
  inside : ∀ home ∈ homes, home.region.Inside (.below frame depth)
  apart : homes.Pairwise fun home other => home.region.Apart other.region

/-- Some of the arguments have been taken, and the others are still in their places. -/
structure Received (registers padding : Nat) (region : Region width) (start : Snapshot width)
    (words : List (BitVec width)) (homes : List (Home width)) (frame : BitVec width) (count : Nat)
    (view : Snapshot width) : Prop where
  frame : view.frame = frame
  bytes : SameOutside region start.bytes view.bytes
  waiting : ∀ index word, count ≤ index → words[index]? = some word →
    view.argument registers (start.top padding) index = word
  taken : ∀ index home word, index < count → homes[index]? = some home →
    words[index]? = some word → home.Got start.bytes view.bytes word

section Received

variable {registers padding depth count : Nat} {start view entered : Snapshot width}
  {words : List (BitVec width)} {homes : List (Home width)}

/-- The place of an argument on the stack, seen from the frame below the last one. -/
theorem slot_eq (top : BitVec width) {index total : Nat} (hindex : index < total)
    (hregisters : registers ≤ index) :
    top - span width (index + 1 - registers) =
      top - span width (total - registers) + span width (total - (index + 1)) := by
  have hsum : index + 1 - registers + (total - (index + 1)) = total - registers := by omega
  rw [sub_span top _ (total - (index + 1)), hsum]

/-- An argument stays in its place while something else changes. -/
theorem argument_keep {bytes : Bytes width} {region : Region width}
    (hsame : SameOutside region view.bytes bytes) {top frame : BitVec width}
    (hframe : frame = top - span width (words.length - registers))
    (hapart : (wordsAt frame (words.length - registers)).Apart region) {index : Nat}
    (hindex : index < words.length) :
    Snapshot.argument registers top { view with bytes } index =
      view.argument registers top index := by
  rw [Snapshot.argument, Snapshot.argument]
  by_cases hlt : index < registers
  · rw [if_pos hlt, if_pos hlt]
  · rw [if_neg hlt, if_neg hlt, slot_eq top hindex (by omega), ← hframe]
    apply hsame.read_eq
    exact hapart.mono (Bytes.wordAt_inside (by omega)) fun _ h => h

theorem top_sub_span (hpassed : Passed registers padding start words view)
    (hpadding : words.length ≤ registers → padding = 0) :
    view.stack = start.top padding - span width (words.length - registers) := by
  rw [hpassed.stack_eq hpadding, BitVec.ofNat_add, Snapshot.top, span]
  grind

/-- At first all arguments are in their places. -/
theorem Entered.received (hpassed : Passed registers padding start words view)
    (hpadding : words.length ≤ registers → padding = 0) (hentered : Entered view entered)
    {region : Region width} (hlink : (Region.below view.stack (wordBytes width * 2)).Inside region)
    (hpushed : (wordsAt view.stack (words.length - registers)).Inside region)
    (hroom : wordBytes width * 2 + wordBytes width * (words.length - registers) ≤ 2 ^ width) :
    Received registers padding region start words homes view.stack 0 entered := by
  have hframe := top_sub_span hpassed hpadding
  constructor
  case frame => exact hentered.frame
  case bytes =>
    have hbytes := hpassed.bytes
    rw [← hframe] at hbytes
    exact (hbytes.mono hpushed).trans (hentered.bytes.mono hlink)
  case waiting =>
    intro index word _ hword
    have hindex := (List.getElem?_eq_some_iff.1 hword).1
    rw [← hpassed.args index word hword]
    have hsame : entered.argument registers (start.top padding) index =
        Snapshot.argument registers (start.top padding) { view with bytes := entered.bytes } index := by
      rw [Snapshot.argument, Snapshot.argument, hentered.args]
    rw [hsame]
    apply argument_keep hentered.bytes hframe _ hindex
    exact (Region.below_apart hroom).symm
  case taken =>
    intro index home word hindex
    omega

/-- Taking an argument gets it home. -/
theorem got_receive (hwidth : 8 ∣ width) {home : Home width} {origin : Bytes width}
    {bytes : Bytes width} {word : BitVec width}
    (hfits : wordBytes width * home.slots?.getD 1 ≤ 2 ^ width)
    (hsource : ∀ slots, home.slots? = some slots → (wordsAt word slots).Apart home.region ∧
      ∀ slot < slots, bytes.read (word + span width slot) = origin.read (word + span width slot)) :
    home.Got origin (home.slots?.elim (bytes.write home.target word)
      (bytes.copy word home.target)) word := by
  obtain ⟨target, slots?⟩ := home
  cases slots? with
  | none => exact Bytes.read_write hwidth _ _ _
  | some slots =>
      obtain ⟨hapart, hsame⟩ := hsource slots rfl
      intro slot hslot
      exact (Bytes.read_copy hwidth bytes hfits hapart hslot).trans (hsame slot hslot)

/-- Taking an argument changes its home and nothing else. -/
theorem receive_sameOutside (home : Home width) (bytes : Bytes width) (word : BitVec width) :
    SameOutside home.region bytes (home.slots?.elim (bytes.write home.target word)
      (bytes.copy word home.target)) := by
  obtain ⟨target, slots?⟩ := home
  cases slots? with
  | none =>
      apply (Bytes.write_sameOutside bytes target word).mono
      exact Region.inside_of_size_le (Nat.le_of_eq (Nat.mul_one _).symm)
  | some slots => exact Bytes.copy_sameOutside bytes word target slots

/-- The next argument is taken, and those behind it stay where they are. -/
theorem Received.receive (hwidth : 8 ∣ width) {region : Region width} {frame : BitVec width}
    (hreceived : Received registers padding region start words homes frame count view)
    (hframe : frame = start.top padding - span width (words.length - registers))
    (hroom : depth + wordBytes width * (words.length - registers) ≤ 2 ^ width)
    (hdepth : (Region.below frame depth).Inside region) (hhosts : Hosts frame depth homes)
    (hsources : ∀ (index : Nat) (home : Home width) (word : BitVec width) (slots : Nat),
      homes[index]? = some home → words[index]? = some word → home.slots? = some slots →
        (wordsAt word slots).Apart region)
    {home : Home width} (hhome : homes[count]? = some home) {word : BitVec width}
    (hword : words[count]? = some word) :
    Received registers padding region start words homes frame (count + 1)
      (view.receive registers words.length count home.target home.slots?) := by
  have hcount := (List.getElem?_eq_some_iff.1 hword).1
  have hmem : home ∈ homes := List.mem_of_getElem? hhome
  -- The argument is found where it was put down.
  have hfound : (if count < registers then view.args count
      else view.bytes.read (view.frame + span width (words.length - (count + 1)))) = word := by
    rw [← hreceived.waiting count word (Nat.le_refl _) hword, Snapshot.argument]
    by_cases hlt : count < registers
    · rw [if_pos hlt, if_pos hlt]
    · rw [if_neg hlt, if_neg hlt, slot_eq _ hcount (by omega), ← hframe, hreceived.frame]
  let bytes := home.slots?.elim (view.bytes.write home.target word)
    (view.bytes.copy word home.target)
  have hview : view.receive registers words.length count home.target home.slots? =
      { view with bytes } := by
    rw [Snapshot.receive]
    simp only [hfound]
    rfl
  have hsame : SameOutside home.region view.bytes bytes := receive_sameOutside home view.bytes word
  rw [hview]
  constructor
  case frame => exact hreceived.frame
  case bytes => exact hreceived.bytes.trans (hsame.mono ((hhosts.inside home hmem).trans hdepth))
  case waiting =>
    intro index word' hindex hword'
    rw [← hreceived.waiting index word' (by omega) hword']
    apply argument_keep hsame hframe _ (List.getElem?_eq_some_iff.1 hword').1
    exact ((Region.below_apart hroom).mono (hhosts.inside home hmem) fun _ h => h).symm
  case taken =>
    intro index other word' hindex hother hword'
    by_cases hlast : index = count
    · subst hlast
      obtain rfl := Option.some.inj (hhome.symm.trans hother)
      obtain rfl := Option.some.inj (hword.symm.trans hword')
      apply got_receive hwidth (hhosts.fits home hmem)
      intro slots hslots
      have hapart := hsources index home word slots hhome hword hslots
      refine ⟨hapart.mono (fun _ h => h) ((hhosts.inside home hmem).trans hdepth), ?_⟩
      intro slot hslot
      apply hreceived.bytes.read_eq
      exact hapart.mono (Bytes.wordAt_inside hslot) fun _ h => h
    · have hgot := hreceived.taken index other word' (by omega) hother hword'
      apply hgot.keep hsame
      have hpairwise := List.pairwise_iff_getElem.1 hhosts.apart
      obtain ⟨hlt, rfl⟩ := List.getElem?_eq_some_iff.1 hother
      obtain ⟨hlt', rfl⟩ := List.getElem?_eq_some_iff.1 hhome
      exact hpairwise index count hlt hlt' (by omega)

end Received

end Shanty.Target
