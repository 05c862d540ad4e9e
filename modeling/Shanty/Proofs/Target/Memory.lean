/-
# The memory of a machine

Memory maps addresses to bytes. An address is as wide as a word of the machine, so that addresses
wrap around, and a word takes several bytes, the lowest one first. Words can lie anywhere, also across
each other: writing one changes a region of bytes, and it keeps every word in a region that has no
address in common with it.
-/

import Mathlib.Algebra.GroupWithZero.Nat
import Mathlib.Algebra.Ring.Int.Defs
import Mathlib.Logic.Function.Basic

namespace Shanty.Target

variable {width : Nat}

/-! ## Regions -/

/-- A number of bytes from an address on. -/
structure Region (width : Nat) where
  start : BitVec width
  size : Nat

namespace Region

/-- An address lies in a region if it is less than the size of the region away from its start. -/
instance : Membership (BitVec width) (Region width) where
  mem region address := (address - region.start).toNat < region.size

theorem mem_mk {start address : BitVec width} {size : Nat} :
    address ∈ (⟨start, size⟩ : Region width) ↔ (address - start).toNat < size := Iff.rfl

/-- Two regions have no address in common. -/
def Apart (first second : Region width) : Prop := ∀ address ∈ first, address ∉ second

theorem Apart.symm {first second : Region width} (hapart : first.Apart second) :
    second.Apart first :=
  fun address hsecond hfirst => hapart address hfirst hsecond

/-- All addresses of a region lie in another one. -/
def Inside (inner outer : Region width) : Prop := ∀ address ∈ inner, address ∈ outer

theorem Inside.trans {first second third : Region width} (hfirst : first.Inside second)
    (hsecond : second.Inside third) : first.Inside third :=
  fun address haddress => hsecond address (hfirst address haddress)

theorem Apart.mono {first second inner other : Region width} (hapart : first.Apart second)
    (hinner : inner.Inside first) (hother : other.Inside second) : inner.Apart other :=
  fun address haddress hmem => hapart address (hinner address haddress) (hother address hmem)

theorem toNat_sub_add_ofNat (address start : BitVec width) (offset : Nat) :
    (address - start).toNat ≤
      (address - (start + BitVec.ofNat width offset)).toNat + offset := by
  have hsplit : address - start =
      address - (start + BitVec.ofNat width offset) + BitVec.ofNat width offset := by
    rw [← BitVec.sub_sub, BitVec.sub_add_cancel]
  rw [hsplit, BitVec.toNat_add, BitVec.toNat_ofNat]
  calc _ ≤ _ := Nat.mod_le _ _
    _ ≤ _ := Nat.add_le_add_left (Nat.mod_le _ _) _

/-- A piece of a region lies in it. -/
theorem inside_of_le {start : BitVec width} {offset size outer : Nat}
    (hle : offset + size ≤ outer) :
    Inside ⟨start + BitVec.ofNat width offset, size⟩ ⟨start, outer⟩ := by
  intro address haddress
  rw [mem_mk] at haddress ⊢
  have hbound := toNat_sub_add_ofNat address start offset
  omega

theorem inside_of_size_le {start : BitVec width} {size outer : Nat} (hle : size ≤ outer) :
    Inside ⟨start, size⟩ ⟨start, outer⟩ :=
  fun _ haddress => Nat.lt_of_lt_of_le haddress hle

/-- Two pieces at different distances from one address are apart if the first one ends before the
second one starts and the second one ends before addresses wrap around. -/
theorem apart_of_le {start : BitVec width} {first second size other : Nat}
    (hle : first + size ≤ second) (hbound : second + other ≤ 2 ^ width) :
    Apart ⟨start + BitVec.ofNat width first, size⟩ ⟨start + BitVec.ofNat width second, other⟩ := by
  intro address hfirst hsecond
  rw [mem_mk] at hfirst hsecond
  have hnear := toNat_sub_add_ofNat address start first
  have hlt := (address - start).isLt
  rw [← BitVec.sub_sub, BitVec.toNat_sub, BitVec.toNat_ofNat] at hsecond
  -- The address is nearer than the start of the second piece, so from there it is far away.
  have hsmall : second % 2 ^ width = second := by
    apply Nat.mod_eq_of_lt
    omega
  rw [hsmall, Nat.mod_eq_of_lt (by omega)] at hsecond
  omega

/-- A piece is apart from what begins behind its end. -/
theorem apart_of_size_le {start : BitVec width} {second size other : Nat} (hle : size ≤ second)
    (hbound : second + other ≤ 2 ^ width) :
    Apart ⟨start, size⟩ ⟨start + BitVec.ofNat width second, other⟩ := by
  have hapart := @apart_of_le width start 0 second size other (by omega) hbound
  rwa [BitVec.add_zero] at hapart

/-- Some bytes below an address. -/
def below (address : BitVec width) (size : Nat) : Region width :=
  ⟨address - BitVec.ofNat width size, size⟩

theorem sub_ofNat_eq (address : BitVec width) {near far : Nat} (hle : near ≤ far) :
    address - BitVec.ofNat width near =
      address - BitVec.ofNat width far + BitVec.ofNat width (far - near) := by
  obtain ⟨rest, rfl⟩ := Nat.exists_eq_add_of_le hle
  rw [BitVec.ofNat_add, Nat.add_sub_cancel_left]
  grind

/-- What lies below a lower address lies below a higher one, too. -/
theorem below_inside {address : BitVec width} {distance size outer : Nat}
    (hle : distance + size ≤ outer) :
    (below (address - BitVec.ofNat width distance) size).Inside (below address outer) := by
  have hstart : address - BitVec.ofNat width distance - BitVec.ofNat width size =
      address - BitVec.ofNat width outer + BitVec.ofNat width (outer - (distance + size)) := by
    rw [← sub_ofNat_eq address hle, BitVec.ofNat_add]
    grind
  rw [below, hstart]
  apply inside_of_le
  omega

theorem below_inside_of_le {address : BitVec width} {size outer : Nat} (hle : size ≤ outer) :
    (below address size).Inside (below address outer) := by
  rw [below, sub_ofNat_eq address hle]
  apply inside_of_le
  omega

/-- What lies below an address is apart from what begins there. -/
theorem below_apart {address : BitVec width} {size other : Nat} (hbound : size + other ≤ 2 ^ width) :
    (below address size).Apart ⟨address, other⟩ := by
  have hapart := @apart_of_size_le width (address - BitVec.ofNat width size) size size other
    (Nat.le_refl _) hbound
  rwa [BitVec.sub_add_cancel] at hapart

/-- An empty region has no addresses. -/
theorem empty_apart {start : BitVec width} {other : Region width} : Apart ⟨start, 0⟩ other := by
  intro address haddress
  rw [mem_mk] at haddress
  omega

end Region

/-! ## Bytes -/

/-- The contents of memory. -/
abbrev Bytes (width : Nat) := BitVec width → BitVec 8

/-- Two memories are the same outside of a region. -/
def Bytes.SameOutside (region : Region width) (bytes bytes' : Bytes width) : Prop :=
  ∀ address, address ∉ region → bytes' address = bytes address

theorem Bytes.SameOutside.mono {inner outer : Region width} {bytes bytes' : Bytes width}
    (hsame : Bytes.SameOutside inner bytes bytes') (hinside : inner.Inside outer) :
    Bytes.SameOutside outer bytes bytes' :=
  fun address hout => hsame address fun hmem => hout (hinside address hmem)

theorem Bytes.SameOutside.refl (region : Region width) (bytes : Bytes width) :
    Bytes.SameOutside region bytes bytes := fun _ _ => rfl

theorem Bytes.SameOutside.trans {region : Region width} {first second third : Bytes width}
    (hfirst : Bytes.SameOutside region first second)
    (hsecond : Bytes.SameOutside region second third) : Bytes.SameOutside region first third :=
  fun address hout => (hsecond address hout).trans (hfirst address hout)

namespace Bytes

/-- The number that some bytes make up, the first one counting least. -/
def peek (bytes : Bytes width) (address : BitVec width) : Nat → Nat
  | 0 => 0
  | count + 1 => (bytes address).toNat + 256 * peek bytes (address + 1) count

/-- The memory in which some bytes make up a number. -/
def poke (bytes : Bytes width) (address : BitVec width) (value : Nat) : Nat → Bytes width
  | 0 => bytes
  | count + 1 =>
    Function.update (poke bytes (address + 1) (value / 256) count) address (BitVec.ofNat 8 value)

/-- The number of bytes of a word. -/
def wordBytes (width : Nat) : Nat := width / 8

/-- The region of the word at an address. -/
def wordAt (address : BitVec width) : Region width := ⟨address, wordBytes width⟩

/-- The word at an address. -/
def read (bytes : Bytes width) (address : BitVec width) : BitVec width :=
  BitVec.ofNat width (bytes.peek address (wordBytes width))

/-- The memory with a word put at an address. -/
def write (bytes : Bytes width) (address value : BitVec width) : Bytes width :=
  bytes.poke address value.toNat (wordBytes width)

theorem inside_succ (address : BitVec width) (count : Nat) :
    Region.Inside ⟨address + 1, count⟩ ⟨address, count + 1⟩ :=
  @Region.inside_of_le width address 1 count (count + 1) (by omega)

theorem mem_succ (address : BitVec width) (count : Nat) :
    address ∈ (⟨address, count + 1⟩ : Region width) := by
  rw [Region.mem_mk, BitVec.sub_self]
  exact Nat.succ_pos _

/-- What bytes make up depends on these bytes alone. -/
theorem peek_congr {bytes bytes' : Bytes width} {address : BitVec width} {count : Nat}
    (hsame : ∀ other ∈ (⟨address, count⟩ : Region width), bytes' other = bytes other) :
    bytes'.peek address count = bytes.peek address count := by
  induction count generalizing address with
  | zero => rfl
  | succ count ih =>
      rw [peek, peek, hsame address (mem_succ address count),
        ih fun other hother => hsame other (inside_succ address count other hother)]

theorem poke_sameOutside (bytes : Bytes width) (address : BitVec width) (value count : Nat) :
    SameOutside ⟨address, count⟩ bytes (bytes.poke address value count) := by
  induction count generalizing address value with
  | zero => exact .refl _ _
  | succ count ih =>
      intro other hout
      have hne : other ≠ address := by
        rintro rfl
        exact hout (mem_succ other count)
      rw [poke, Function.update_of_ne hne]
      exact ih _ _ other fun hmem => hout (inside_succ address count other hmem)

/-- A number that was put into enough bytes is found there. -/
theorem peek_poke (bytes : Bytes width) (address : BitVec width) (value count : Nat)
    (hcount : count ≤ 2 ^ width) :
    (bytes.poke address value count).peek address count = value % 256 ^ count := by
  induction count generalizing address value with
  | zero => rw [peek, Nat.pow_zero, Nat.mod_one]
  | succ count ih =>
      have hout : address ∉ (⟨address + 1, count⟩ : Region width) := by
        have hapart := @Region.apart_of_le width address 0 1 1 count (by omega) (by omega)
        rw [BitVec.add_zero] at hapart
        exact hapart address (mem_succ address 0)
      have hrest : (bytes.poke address value (count + 1)).peek (address + 1) count =
          (bytes.poke (address + 1) (value / 256) count).peek (address + 1) count := by
        apply peek_congr
        intro other hother
        rw [poke, Function.update_of_ne]
        rintro rfl
        exact hout hother
      have hfirst : ((bytes.poke address value (count + 1)) address).toNat = value % 256 := by
        rw [poke, Function.update_self, BitVec.toNat_ofNat]
      rw [peek, hrest, ih _ _ (by omega), hfirst, Nat.pow_succ', Nat.mod_mul]

/-- A word is read from the bytes of its own region. -/
theorem read_congr {bytes bytes' : Bytes width} {address : BitVec width}
    (hsame : ∀ other ∈ wordAt address, bytes' other = bytes other) :
    bytes'.read address = bytes.read address :=
  congrArg (BitVec.ofNat width) (peek_congr hsame)

/-- A change somewhere else keeps a word. -/
theorem SameOutside.read_eq {region : Region width} {bytes bytes' : Bytes width}
    (hsame : SameOutside region bytes bytes') {address : BitVec width}
    (hapart : (wordAt address).Apart region) : bytes'.read address = bytes.read address :=
  read_congr fun other hother => hsame other (hapart other hother)

theorem write_sameOutside (bytes : Bytes width) (address value : BitVec width) :
    SameOutside (wordAt address) bytes (bytes.write address value) :=
  poke_sameOutside bytes address value.toNat (wordBytes width)

/-- A word that was written is read. -/
theorem read_write (hwidth : 8 ∣ width) (bytes : Bytes width) (address value : BitVec width) :
    (bytes.write address value).read address = value := by
  have hbytes : 256 ^ wordBytes width = 2 ^ width := by
    rw [wordBytes, show 256 = 2 ^ 8 from rfl, ← Nat.pow_mul, Nat.mul_div_cancel' hwidth]
  have hcount : wordBytes width ≤ 2 ^ width :=
    Nat.le_trans (Nat.div_le_self _ _) (Nat.le_of_lt Nat.lt_two_pow_self)
  rw [read, write, peek_poke _ _ _ _ hcount, hbytes, Nat.mod_eq_of_lt value.isLt,
    BitVec.ofNat_toNat, BitVec.setWidth_eq]

/-- Writing a word keeps every word apart from it. -/
theorem read_write_of_apart (bytes : Bytes width) {address other : BitVec width}
    (value : BitVec width) (hapart : (wordAt other).Apart (wordAt address)) :
    (bytes.write address value).read other = bytes.read other :=
  (write_sameOutside bytes address value).read_eq hapart

/-! ### Words in a row -/

/-- The distance between two words that are some words apart. -/
def span (width count : Nat) : BitVec width := BitVec.ofNat width (wordBytes width * count)

theorem span_zero : span width 0 = 0 := by
  rw [span, Nat.mul_zero]
  rfl

theorem span_add (first second : Nat) :
    span width (first + second) = span width first + span width second := by
  rw [span, Nat.mul_add, BitVec.ofNat_add]
  rfl

/-- The region of some words in a row. -/
def wordsAt (address : BitVec width) (count : Nat) : Region width :=
  ⟨address, wordBytes width * count⟩

theorem wordAt_inside {address : BitVec width} {index count : Nat} (hindex : index < count) :
    (wordAt (address + span width index)).Inside (wordsAt address count) := by
  apply Region.inside_of_le
  have hle := Nat.mul_le_mul_left (wordBytes width) hindex
  rw [Nat.mul_succ] at hle
  exact hle

/-- Copies some words in a row, the first one first. -/
def copy (bytes : Bytes width) (source target : BitVec width) : Nat → Bytes width
  | 0 => bytes
  | count + 1 =>
    let done := bytes.copy source target count
    done.write (target + span width count) (done.read (source + span width count))

theorem copy_sameOutside (bytes : Bytes width) (source target : BitVec width) (count : Nat) :
    SameOutside (wordsAt target count) bytes (bytes.copy source target count) := by
  induction count with
  | zero => exact .refl _ _
  | succ count ih =>
      apply SameOutside.trans (ih.mono (Region.inside_of_size_le (Nat.mul_le_mul_left _ count.le_succ)))
      exact (write_sameOutside _ _ _).mono (wordAt_inside count.lt_succ_self)

/-- What has been copied is the same as its source, unless the two overlap. -/
theorem read_copy (hwidth : 8 ∣ width) (bytes : Bytes width) {source target : BitVec width}
    {count : Nat} (hfits : wordBytes width * count ≤ 2 ^ width)
    (hapart : (wordsAt source count).Apart (wordsAt target count)) {index : Nat}
    (hindex : index < count) :
    (bytes.copy source target count).read (target + span width index) =
      bytes.read (source + span width index) := by
  induction count with
  | zero => omega
  | succ count ih =>
      have hinside : ∀ start : BitVec width, (wordsAt start count).Inside (wordsAt start (count + 1)) :=
        fun start => Region.inside_of_size_le (Nat.mul_le_mul_left _ count.le_succ)
      rw [Nat.mul_succ] at hfits
      by_cases hlast : index = count
      · subst hlast
        rw [copy, read_write hwidth]
        apply (copy_sameOutside bytes source target index).read_eq
        exact hapart.mono (wordAt_inside index.lt_succ_self) (hinside target)
      · have hless : index < count := by omega
        have hle := Nat.mul_le_mul_left (wordBytes width) hless
        rw [Nat.mul_succ] at hle
        rw [copy, read_write_of_apart, ih (by omega) (hapart.mono (hinside _) (hinside _)) hless]
        exact Region.apart_of_le (by exact hle) (by exact hfits)

/-- Words of nothing but zeros are zero. -/
theorem read_zero (address : BitVec width) : read (fun _ => 0) address = 0 := by
  have hpeek : ∀ (count : Nat) (address : BitVec width), peek (fun _ => 0) address count = 0 := by
    intro count
    induction count with
    | zero => exact fun _ => rfl
    | succ count ih =>
        intro address
        rw [peek, ih]
        rfl
  rw [read, hpeek]
  rfl

end Bytes

end Shanty.Target
