import Mathlib.Algebra.Group.Nat.Defs
import Mathlib.Data.List.Basic
import Mathlib.Tactic.Common

/-!
# Bytes of a little-endian host

Stores and loads of unsigned integers at byte offsets, byte order conversions, and allocated
blocks. A block keeps the offsets that were written to it, so that a store outside the
allocated size stays visible; the memory itself goes on past the block, as it does on the host.
-/

namespace Comp556

/-- The bytes at and after some address. -/
abbrev Memory := Nat → UInt8

/-- The `width` lowest bytes of a value, least significant first. -/
def leBytes : Nat → Nat → List UInt8
  | 0, _ => []
  | width + 1, value => UInt8.ofNat (value % 256) :: leBytes width (value / 256)

def leValue : List UInt8 → Nat
  | [] => 0
  | b :: bs => b.toNat + 256 * leValue bs

@[simp] theorem leBytes_length (width value : Nat) : (leBytes width value).length = width := by
  induction width generalizing value with
  | zero => rfl
  | succ width ih => simp [leBytes, ih]

private theorem leValue_leBytes (width value : Nat) : leValue (leBytes width value) = value % 256 ^ width := by
  induction width generalizing value with
  | zero => simp [leBytes, leValue, Nat.mod_one]
  | succ width ih =>
    have hbyte : (UInt8.ofNat (value % 256)).toNat = value % 256 := by
      simp
    rw [leBytes, leValue, ih, hbyte, Nat.pow_succ', Nat.mod_mul]

private theorem leValue_lt (bytes : List UInt8) : leValue bytes < 256 ^ bytes.length := by
  induction bytes with
  | nil => simp [leValue]
  | cons b bytes ih =>
    have hb := b.toNat_lt
    rw [leValue, List.length_cons, Nat.pow_succ']
    omega

private theorem leBytes_leValue (bytes : List UInt8) : leBytes bytes.length (leValue bytes) = bytes := by
  induction bytes with
  | nil => rfl
  | cons b bytes ih =>
    have hb := b.toNat_lt
    have hlow : (leValue (b :: bytes)) % 256 = b.toNat := by
      rw [leValue]
      omega
    have hrest : (leValue (b :: bytes)) / 256 = leValue bytes := by
      rw [leValue]
      omega
    rw [List.length_cons, leBytes, hlow, hrest, ih, UInt8.ofNat_toNat]

private theorem leBytes_take (width more value : Nat) :
    (leBytes (width + more) value).take width = leBytes width value := by
  induction width generalizing value with
  | zero => simp [leBytes]
  | succ width ih =>
    rw [Nat.add_right_comm, leBytes, leBytes, List.take_succ_cons, ih]

namespace Memory

def store (m : Memory) (offset : Nat) (bytes : List UInt8) : Memory :=
  fun i => if offset ≤ i then (bytes[i - offset]?).getD (m i) else m i

def load (m : Memory) (offset width : Nat) : List UInt8 :=
  (List.range width).map fun i => m (offset + i)

private theorem store_apply_outside (m : Memory) (offset : Nat) (bytes : List UInt8) (i : Nat)
    (h : i < offset ∨ offset + bytes.length ≤ i) : m.store offset bytes i = m i := by
  unfold store
  split
  · rw [List.getElem?_eq_none (by omega), Option.getD_none]
  · rfl

@[simp] theorem load_length (m : Memory) (offset width : Nat) : (m.load offset width).length = width := by
  simp [load]

theorem load_store_prefix (m : Memory) (offset width : Nat) (bytes : List UInt8)
    (h : width ≤ bytes.length) : (m.store offset bytes).load offset width = bytes.take width := by
  apply List.ext_getElem
  · simp [load, h]
  · intro i hi _
    have hw : i < width := by simpa [load] using hi
    simp [load, store, List.getElem?_eq_getElem (show i < bytes.length by omega)]

theorem load_store_full (m : Memory) (offset : Nat) (bytes : List UInt8) {width : Nat}
    (h : bytes.length = width) : (m.store offset bytes).load offset width = bytes := by
  rw [← h, load_store_prefix m offset _ bytes (Nat.le_refl _), List.take_length]

theorem load_store_outside (m : Memory) (offset at_ width : Nat) (bytes : List UInt8)
    (h : at_ + width ≤ offset ∨ offset + bytes.length ≤ at_) :
    (m.store offset bytes).load at_ width = m.load at_ width := by
  apply List.map_congr_left
  intro i hi
  have hw := List.mem_range.mp hi
  exact store_apply_outside m offset bytes _ (by omega)

theorem load_add (m : Memory) (offset width more : Nat) :
    m.load offset (width + more) = m.load offset width ++ m.load (offset + width) more := by
  simp [load, List.range_add, Nat.add_assoc]

/-- Reading a part of what was stored. -/
theorem load_store_inside (m : Memory) {offset skip width : Nat} {bytes : List UInt8}
    (h : skip + width ≤ bytes.length) :
    (m.store offset bytes).load (offset + skip) width = (bytes.drop skip).take width := by
  apply List.ext_getElem
  · simp only [load_length, List.length_take, List.length_drop]
    omega
  · intro i hi _
    rw [load_length] at hi
    have hin : skip + i < bytes.length := by omega
    simp [load, store, Nat.add_assoc, hin]

/-- Reading back from a place to which the first `size` bytes were copied. -/
theorem load_image (m image : Memory) {offset width size : Nat} (h : offset + width ≤ size) :
    (m.store 0 (image.load 0 size)).load offset width = image.load offset width := by
  apply List.map_congr_left
  intro i hi
  have hw := List.mem_range.mp hi
  have hlt : offset + i < (image.load 0 size).length := by
    rw [load_length]
    omega
  rw [store, if_pos (Nat.zero_le _), Nat.sub_zero, List.getElem?_eq_getElem hlt]
  simp [load]

/-- `*(unsigned short *)(p + offset)`. -/
def load16 (m : Memory) (offset : Nat) : UInt16 := UInt16.ofNat (leValue (m.load offset 2))

/-- `*(unsigned int *)(p + offset)`. -/
def load32 (m : Memory) (offset : Nat) : UInt32 := UInt32.ofNat (leValue (m.load offset 4))

end Memory

def bytes16 (v : UInt16) : List UInt8 := leBytes 2 v.toNat
def bytes32 (v : UInt32) : List UInt8 := leBytes 4 v.toNat
def bytes64 (v : UInt64) : List UInt8 := leBytes 8 v.toNat

@[simp] theorem bytes16_length (v : UInt16) : (bytes16 v).length = 2 := leBytes_length _ _
@[simp] theorem bytes32_length (v : UInt32) : (bytes32 v).length = 4 := leBytes_length _ _
@[simp] theorem bytes64_length (v : UInt64) : (bytes64 v).length = 8 := leBytes_length _ _

namespace Memory

theorem load16_of_bytes {m : Memory} {offset : Nat} {v : UInt16} (h : m.load offset 2 = bytes16 v) :
    m.load16 offset = v := by
  have hlt : v.toNat < 256 ^ 2 := v.toNat_lt
  rw [load16, h, bytes16, leValue_leBytes, Nat.mod_eq_of_lt hlt, UInt16.ofNat_toNat]

theorem load32_of_bytes {m : Memory} {offset : Nat} {v : UInt32} (h : m.load offset 4 = bytes32 v) :
    m.load32 offset = v := by
  have hlt : v.toNat < 256 ^ 4 := v.toNat_lt
  rw [load32, h, bytes32, leValue_leBytes, Nat.mod_eq_of_lt hlt, UInt32.ofNat_toNat]

theorem load16_store16 (m : Memory) (offset : Nat) (v : UInt16) :
    (m.store offset (bytes16 v)).load16 offset = v :=
  load16_of_bytes (m.load_store_full offset _ (bytes16_length v))

/-- The first two bytes of a 64-bit store are the low 16 bits of the value. -/
theorem load16_store64 (m : Memory) (offset : Nat) (v : UInt64) :
    (m.store offset (bytes64 v)).load16 offset = v.toUInt16 := by
  have hlow : (bytes64 v).take 2 = leBytes 2 v.toNat := leBytes_take 2 6 _
  rw [load16, load_store_prefix m offset 2 _ (by simp), hlow, leValue_leBytes]
  apply UInt16.toNat_inj.mp
  simp

theorem load32_store32 (m : Memory) (offset : Nat) (v : UInt32) :
    (m.store offset (bytes32 v)).load32 offset = v :=
  load32_of_bytes (m.load_store_full offset _ (bytes32_length v))

private theorem load_congr {m m' : Memory} {offset width : Nat}
    (h : ∀ i ∈ List.range' offset width, m' i = m i) :
    m'.load offset width = m.load offset width := by
  apply List.map_congr_left
  intro i hi
  have hlt := List.mem_range.mp hi
  exact h (offset + i) (List.mem_range'_1.mpr (by omega))

/-- A load depends on its two bytes only. -/
theorem load16_congr {m m' : Memory} {offset : Nat} (h : ∀ i ∈ List.range' offset 2, m' i = m i) :
    m'.load16 offset = m.load16 offset := by
  rw [load16, load_congr h, load16]

theorem load32_congr {m m' : Memory} {offset : Nat} (h : ∀ i ∈ List.range' offset 4, m' i = m i) :
    m'.load32 offset = m.load32 offset := by
  rw [load32, load_congr h, load32]

private theorem load16_store_outside (m : Memory) (offset at_ : Nat) (bytes : List UInt8)
    (h : at_ + 2 ≤ offset ∨ offset + bytes.length ≤ at_) :
    (m.store offset bytes).load16 at_ = m.load16 at_ := by
  rw [load16, load_store_outside m offset at_ 2 bytes h, load16]

end Memory

/-- `htons` of a little-endian host; `ntohs` is the same exchange of the two bytes. -/
def htons (x : UInt16) : UInt16 := UInt16.ofNat (x.toNat % 256 * 256 + x.toNat / 256)

def ntohs (x : UInt16) : UInt16 := htons x

/-- `htonl` of a little-endian host; `ntohl` is the same reversal of the four bytes. -/
def htonl (x : UInt32) : UInt32 := UInt32.ofNat (leValue (leBytes 4 x.toNat).reverse)

def ntohl (x : UInt32) : UInt32 := htonl x

@[simp] theorem ntohs_htons (x : UInt16) : ntohs (htons x) = x := by
  apply UInt16.toNat_inj.mp
  have hx := x.toNat_lt
  have hswap : x.toNat % 256 * 256 + x.toNat / 256 < 2 ^ 16 := by omega
  have hback : (x.toNat % 256 * 256 + x.toNat / 256) % 256 * 256 +
      (x.toNat % 256 * 256 + x.toNat / 256) / 256 = x.toNat := by omega
  simp only [ntohs, htons, UInt16.toNat_ofNat', Nat.mod_eq_of_lt hswap, hback, Nat.mod_eq_of_lt hx]

@[simp] theorem ntohl_htonl (x : UInt32) : ntohl (htonl x) = x := by
  have hlength : (leBytes 4 x.toNat).reverse.length = 4 := by
    rw [List.length_reverse, leBytes_length]
  have hreversed := leValue_lt (leBytes 4 x.toNat).reverse
  have hbytes := leBytes_leValue (leBytes 4 x.toNat).reverse
  have hlt : x.toNat < 256 ^ 4 := x.toNat_lt
  rw [hlength] at hreversed hbytes
  rw [ntohl, htonl, htonl, UInt32.toNat_ofNat_of_lt' hreversed, hbytes, List.reverse_reverse,
    leValue_leBytes, Nat.mod_eq_of_lt hlt, UInt32.ofNat_toNat]

/-- The contents of an array of `size` bytes. -/
structure Block (size : Nat) where
  bytes : List UInt8
  length_eq : bytes.length = size

namespace Block

def zeros (size : Nat) : Block size := ⟨List.replicate size 0, List.length_replicate⟩

/-- The array after its first bytes have been overwritten; bytes that do not fit are dropped. -/
def overwrite {size : Nat} (b : Block size) (bytes : List UInt8) : Block size where
  bytes := bytes.take size ++ b.bytes.drop bytes.length
  length_eq := by
    rw [List.length_append, List.length_take, List.length_drop, b.length_eq]
    omega

private theorem overwrite_bytes {size : Nat} (b : Block size) (bytes : List UInt8) :
    (b.overwrite bytes).bytes = bytes.take size ++ b.bytes.drop bytes.length := rfl

theorem overwrite_take {size : Nat} (b : Block size) {bytes : List UInt8} (h : bytes.length ≤ size) :
    (b.overwrite bytes).bytes.take bytes.length = bytes := by
  rw [overwrite_bytes, List.take_of_length_le h, List.take_left]

theorem overwrite_full {size : Nat} (b : Block size) {bytes : List UInt8} (h : bytes.length = size) :
    (b.overwrite bytes).bytes = bytes := by
  rw [overwrite_bytes, List.take_of_length_le (Nat.le_of_eq h),
    List.drop_eq_nil_of_le (Nat.le_of_eq (b.length_eq.trans h.symm)), List.append_nil]

end Block

/-- A block from `malloc`: its size, the memory from its address on, and every offset a store
has touched. -/
structure Buffer where
  capacity : Nat
  memory : Memory
  written : List Nat

namespace Buffer

/-- A fresh block holds whatever the memory held before. -/
def malloc (fresh : Memory) (capacity : Nat) : Buffer := ⟨capacity, fresh, []⟩

def store (b : Buffer) (offset : Nat) (bytes : List UInt8) : Buffer :=
  { b with
    memory := b.memory.store offset bytes
    written := b.written ++ List.range' offset bytes.length }

def store8 (b : Buffer) (offset : Nat) (v : UInt8) : Buffer := b.store offset [v]
def store16 (b : Buffer) (offset : Nat) (v : UInt16) : Buffer := b.store offset (bytes16 v)
def store32 (b : Buffer) (offset : Nat) (v : UInt32) : Buffer := b.store offset (bytes32 v)
def store64 (b : Buffer) (offset : Nat) (v : UInt64) : Buffer := b.store offset (bytes64 v)

@[simp] theorem load16_store16 (b : Buffer) (offset : Nat) (v : UInt16) :
    (b.store16 offset v).memory.load16 offset = v :=
  b.memory.load16_store16 offset v

theorem load16_store16_of_apart (b : Buffer) {offset at_ : Nat} (v : UInt16)
    (h : at_ + 2 ≤ offset ∨ offset + 2 ≤ at_) :
    (b.store16 offset v).memory.load16 at_ = b.memory.load16 at_ :=
  b.memory.load16_store_outside offset at_ (bytes16 v) (by simpa using h)

theorem load16_store64_of_apart (b : Buffer) {offset at_ : Nat} (v : UInt64)
    (h : at_ + 2 ≤ offset ∨ offset + 8 ≤ at_) :
    (b.store64 offset v).memory.load16 at_ = b.memory.load16 at_ :=
  b.memory.load16_store_outside offset at_ (bytes64 v) (by simpa using h)

theorem store16_apply_before (b : Buffer) {offset at_ : Nat} (v : UInt16) (h : at_ < offset) :
    (b.store16 offset v).memory at_ = b.memory at_ :=
  b.memory.store_apply_outside offset (bytes16 v) at_ (.inl h)

@[simp] theorem load32_store32 (b : Buffer) (offset : Nat) (v : UInt32) :
    (b.store32 offset v).memory.load32 offset = v :=
  b.memory.load32_store32 offset v

theorem load16_store32_of_apart (b : Buffer) {offset at_ : Nat} (v : UInt32)
    (h : at_ + 2 ≤ offset ∨ offset + 4 ≤ at_) :
    (b.store32 offset v).memory.load16 at_ = b.memory.load16 at_ :=
  b.memory.load16_store_outside offset at_ (bytes32 v) (by simpa using h)

theorem store32_apply_before (b : Buffer) {offset at_ : Nat} (v : UInt32) (h : at_ < offset) :
    (b.store32 offset v).memory at_ = b.memory at_ :=
  b.memory.store_apply_outside offset (bytes32 v) at_ (.inl h)

@[simp] theorem store16_capacity (b : Buffer) (offset : Nat) (v : UInt16) :
    (b.store16 offset v).capacity = b.capacity := rfl

/-- Every store fell inside the block. -/
def InBounds (b : Buffer) : Prop := ∀ i ∈ b.written, i < b.capacity

instance (b : Buffer) : Decidable b.InBounds := by unfold InBounds; infer_instance

@[simp] theorem store_capacity (b : Buffer) (offset : Nat) (bytes : List UInt8) :
    (b.store offset bytes).capacity = b.capacity := rfl

private theorem inBounds_store (b : Buffer) (offset : Nat) (bytes : List UInt8) :
    (b.store offset bytes).InBounds ↔
      b.InBounds ∧ (bytes = [] ∨ offset + bytes.length ≤ b.capacity) := by
  constructor
  · intro h
    refine ⟨fun i hi => h i (List.mem_append_left _ hi), ?_⟩
    by_cases hb : bytes = []
    · exact .inl hb
    · have hpos := List.length_pos_iff.mpr hb
      have hlast := h (offset + bytes.length - 1)
        (List.mem_append_right _ (List.mem_range'_1.mpr (by omega)))
      rw [store_capacity] at hlast
      exact .inr (by omega)
  · rintro ⟨hb, hfit⟩ i hi
    rcases List.mem_append.mp hi with hi | hi
    · exact hb i hi
    · have hr := List.mem_range'_1.mp hi
      rw [store_capacity]
      rcases hfit with rfl | hfit
      · simp at hr
        omega
      · omega

theorem inBounds_malloc (fresh : Memory) (capacity : Nat) : (malloc fresh capacity).InBounds := by
  simp [InBounds, malloc]

theorem inBounds_store8 (b : Buffer) (offset : Nat) (v : UInt8) :
    (b.store8 offset v).InBounds ↔ b.InBounds ∧ offset + 1 ≤ b.capacity := by
  simp [store8, inBounds_store]

theorem inBounds_store16 (b : Buffer) (offset : Nat) (v : UInt16) :
    (b.store16 offset v).InBounds ↔ b.InBounds ∧ offset + 2 ≤ b.capacity := by
  have hne : bytes16 v ≠ [] := List.length_pos_iff.mp (by simp)
  simp [store16, inBounds_store, hne]

theorem inBounds_store64 (b : Buffer) (offset : Nat) (v : UInt64) :
    (b.store64 offset v).InBounds ↔ b.InBounds ∧ offset + 8 ≤ b.capacity := by
  have hne : bytes64 v ≠ [] := List.length_pos_iff.mp (by simp)
  simp [store64, inBounds_store, hne]

def storePair (b : Buffer) (offset : Nat) (v w : UInt16) : Buffer := (b.store16 offset v).store16 (offset + 2) w

@[simp] theorem storePair_capacity (b : Buffer) (offset : Nat) (v w : UInt16) :
    (b.storePair offset v w).capacity = b.capacity := rfl

theorem load16_storePair (b : Buffer) (offset : Nat) (v w : UInt16) :
    (b.storePair offset v w).memory.load16 offset = v ∧
    (b.storePair offset v w).memory.load16 (offset + 2) = w :=
  ⟨(load16_store16_of_apart _ w (.inl (Nat.le_refl _))).trans (load16_store16 b offset v), load16_store16 ..⟩

theorem load16_storePair_of_apart (b : Buffer) {offset at_ : Nat} (v w : UInt16)
    (h : at_ + 2 ≤ offset ∨ offset + 4 ≤ at_) :
    (b.storePair offset v w).memory.load16 at_ = b.memory.load16 at_ := by
  rw [storePair, load16_store16_of_apart _ w (by omega), load16_store16_of_apart _ v (by omega)]

theorem storePair_apply_before (b : Buffer) {offset at_ : Nat} (v w : UInt16) (h : at_ < offset) :
    (b.storePair offset v w).memory at_ = b.memory at_ := by
  rw [storePair, store16_apply_before _ w (by omega), store16_apply_before _ v h]

theorem inBounds_storePair (b : Buffer) (offset : Nat) (v w : UInt16) :
    (b.storePair offset v w).InBounds ↔ b.InBounds ∧ offset + 4 ≤ b.capacity := by
  rw [storePair, inBounds_store16, inBounds_store16, store16_capacity, and_assoc]
  apply and_congr_right
  intro _
  omega

end Buffer

/-- The values of `i` in `for (i = start; i < size; i += step)`. -/
def loopOffsets (start size step : Nat) : List Nat :=
  List.range' start ((size - start + step - 1) / step) step

theorem loopOffsets_length (start size step : Nat) :
    (loopOffsets start size step).length = (size - start + step - 1) / step := by
  simp [loopOffsets]

theorem loopOffsets_getElem (start size step k : Nat) (h : k < (loopOffsets start size step).length) :
    (loopOffsets start size step)[k] = start + step * k := by
  simp [loopOffsets]

/-- A loop whose steps come out even ends at `size`. -/
theorem loopOffsets_fit {start size step i : Nat} (hstep : 0 < step) (heven : step ∣ size - start)
    (h : i ∈ loopOffsets start size step) : i + step ≤ size := by
  obtain ⟨m, hm⟩ := heven
  obtain ⟨k, hk, rfl⟩ := List.mem_range'.mp h
  have hlast : (k + 1) * step ≤ step * m + step - 1 := (Nat.le_div_iff_mul_le hstep).mp (hm ▸ hk)
  have hless : step * k < step * m := by
    rw [Nat.succ_mul, Nat.mul_comm k] at hlast
    omega
  have hnext := Nat.mul_le_mul_left step (Nat.lt_of_mul_lt_mul_left hless)
  rw [Nat.mul_succ] at hnext
  omega

end Comp556
