import Comp556.Foundation.ShiftRegister
import Comp556.Transfer.Packet

/-!
# Short error bursts

`crc32` is a feedback shift register that is fed the bytes of its buffer bit by bit, so it sees
every burst of errors that fits into its 32 bits.
-/

namespace Comp556.Transfer

open ShiftRegister

/-- The feedback word of `crc32`. -/
def crcFeedback : BitVec 32 := 0xEDB88320#32

def byteBits (b : UInt8) : List Bool := (List.range 8).map b.toBitVec.getLsbD

def bits (buf : List UInt8) : List Bool := buf.flatMap byteBits

/-- The bit of a buffer at a position counted from the least significant bit of its first byte. -/
def bitAt (buf : List UInt8) (i : Nat) : Bool := (buf.getD (i / 8) 0).toBitVec.getLsbD (i % 8)

@[simp] theorem byteBits_length (b : UInt8) : (byteBits b).length = 8 := by
  simp [byteBits]

private theorem bits_length (buf : List UInt8) : (bits buf).length = 8 * buf.length := by
  simp [bits, List.length_flatMap, Nat.mul_comm]

private theorem bits_cons (b : UInt8) (buf : List UInt8) : bits (b :: buf) = byteBits b ++ bits buf := rfl

private theorem bits_getElem? (buf : List UInt8) (i : Nat) (h : i < 8 * buf.length) :
    (bits buf)[i]? = some (bitAt buf i) := by
  induction buf generalizing i with
  | nil => cases h
  | cons b buf ih =>
    rw [bits_cons]
    by_cases hi : i < 8
    · rw [List.getElem?_append_left (by simpa using hi)]
      simp [byteBits, bitAt, hi, Nat.div_eq_of_lt hi, Nat.mod_eq_of_lt hi]
    · obtain ⟨j, rfl⟩ := Nat.exists_eq_add_of_le (Nat.not_lt.mp hi)
      rw [List.length_cons] at h
      rw [List.getElem?_append_right (by simp), byteBits_length, Nat.add_sub_cancel_left, ih j (by omega)]
      simp [bitAt, Nat.add_comm 8 j]

private theorem mask_eq (c : BitVec 32) :
    0#32 - (c &&& 1#32) = if c.getLsbD 0 then BitVec.allOnes 32 else 0#32 := by
  rw [BitVec.and_one_eq_setWidth_ofBool_getLsbD]
  cases c.getLsbD 0 <;> rfl

private theorem crcBit_toBitVec (crc : UInt32) : (crcBit crc).toBitVec = shift crcFeedback crc.toBitVec := by
  have hmask : (0 - (crc &&& 1)).toBitVec = 0#32 - (crc.toBitVec &&& 1#32) := rfl
  have hstep : (crcBit crc).toBitVec =
      (crc.toBitVec >>> 1) ^^^ (crcFeedback &&& (0 - (crc &&& 1)).toBitVec) := rfl
  rw [hstep, hmask, mask_eq, shift]
  cases crc.toBitVec.getLsbD 0 with
  | false => simp
  | true => rw [if_pos rfl, if_pos rfl, BitVec.and_allOnes]

private theorem word_byteBits (b : UInt8) : word (byteBits b) = b.toUInt32.toBitVec := by
  apply BitVec.eq_of_getLsbD_eq
  intro i hi
  rw [getLsbD_word, decide_eq_true hi, Bool.true_and, UInt8.toBitVec_toUInt32, BitVec.getLsbD_setWidth,
    decide_eq_true hi, Bool.true_and]
  by_cases hbyte : i < 8
  · simp [byteBits, hbyte]
  · rw [BitVec.getLsbD_of_ge _ _ (Nat.not_lt.mp hbyte)]
    simp [hbyte]

private theorem repeat_crcBit (n : Nat) (crc : UInt32) :
    (Nat.repeat crcBit n crc).toBitVec = (shift crcFeedback)^[n] crc.toBitVec := by
  induction n with
  | zero => rfl
  | succ n ih => rw [Nat.repeat, crcBit_toBitVec, ih, Function.iterate_succ_apply']

private theorem crcByte_toBitVec (crc : UInt32) (b : UInt8) :
    (crcByte crc b).toBitVec = run crcFeedback crc.toBitVec (byteBits b) := by
  rw [crcByte, repeat_crcBit, run_eq_iterate _ (by simp), byteBits_length, word_byteBits,
    UInt32.toBitVec_xor]

private theorem crcBytes_toBitVec (crc : UInt32) (buf : List UInt8) :
    (buf.foldl crcByte crc).toBitVec = run crcFeedback crc.toBitVec (bits buf) := by
  induction buf generalizing crc with
  | nil => rfl
  | cons b buf ih => rw [List.foldl_cons, ih, crcByte_toBitVec, bits_cons, run_append]

private theorem crc32_eq_iff (buf buf' : List UInt8) : crc32 buf = crc32 buf' ↔
    run crcFeedback (BitVec.allOnes 32) (bits buf) = run crcFeedback (BitVec.allOnes 32) (bits buf') := by
  have hregister (buf : List UInt8) : (~~~crc32 buf).toBitVec =
      run crcFeedback (BitVec.allOnes 32) (bits buf) := by
    rw [crc32, UInt32.not_not]
    exact crcBytes_toBitVec _ buf
  rw [← hregister, ← hregister, UInt32.toBitVec_inj, UInt32.not_inj]

private theorem bitAt_of_le {buf : List UInt8} {i : Nat} (h : 8 * buf.length ≤ i) : bitAt buf i = false := by
  have hout : buf.length ≤ i / 8 := by omega
  simp [bitAt, List.getElem?_eq_none hout]

private theorem bitAt_byte (buf : List UInt8) (k j : Nat) (hj : j < 8) :
    bitAt buf (8 * k + j) = (buf.getD k 0).toBitVec.getLsbD j := by
  rw [bitAt, Nat.mul_add_div (by decide), Nat.div_eq_of_lt hj, Nat.mul_add_mod, Nat.mod_eq_of_lt hj,
    Nat.add_zero]

private theorem eq_of_bitAt {buf buf' : List UInt8} (hlength : buf.length = buf'.length)
    (h : ∀ i, bitAt buf i = bitAt buf' i) : buf = buf' := by
  apply List.ext_getElem hlength
  intro k hk hk'
  apply UInt8.toBitVec_inj.mp
  apply BitVec.eq_of_getLsbD_eq
  intro j hj
  have hbit := h (8 * k + j)
  rw [bitAt_byte _ _ _ hj, bitAt_byte _ _ _ hj] at hbit
  simpa [hk, hk'] using hbit

/-- The buffers differ, and only within `width` consecutive bits. -/
structure Burst (width : Nat) (buf buf' : List UInt8) : Prop where
  length : buf.length = buf'.length
  differ : buf ≠ buf'
  window : ∃ start, ∀ i, bitAt buf i ≠ bitAt buf' i → start ≤ i ∧ i < start + width

theorem Burst.crc32_ne {buf buf' : List UInt8} (h : Burst 32 buf buf') : crc32 buf ≠ crc32 buf' := by
  obtain ⟨start, hwindow⟩ := h.window
  have hlength : (bits buf).length = (bits buf').length := by
    rw [bits_length, bits_length, h.length]
  have hbit (i : Nat) : (bits buf)[i]? ≠ (bits buf')[i]? → bitAt buf i ≠ bitAt buf' i := by
    intro hne heq
    apply hne
    by_cases hi : i < 8 * buf.length
    · rw [bits_getElem? buf i hi, bits_getElem? buf' i (h.length ▸ hi), heq]
    · rw [List.getElem?_eq_none (by rw [bits_length]; omega),
        List.getElem?_eq_none (by rw [← hlength, bits_length]; omega)]
  have hne : bits buf ≠ bits buf' := by
    intro heq
    apply h.differ
    apply eq_of_bitAt h.length
    intro i
    by_cases hi : i < 8 * buf.length
    · have hsame := bits_getElem? buf i hi
      rw [heq, bits_getElem? buf' i (h.length ▸ hi)] at hsame
      exact (Option.some.inj hsame).symm
    · rw [bitAt_of_le (Nat.not_lt.mp hi), bitAt_of_le (h.length ▸ Nat.not_lt.mp hi)]
  rw [Ne, crc32_eq_iff]
  exact run_ne_of_burst (by decide) _ hlength hne start fun i hi => hwindow i (hbit i hi)

theorem Burst.set {buf : List UInt8} {k : Nat} {b : UInt8} (hk : k < buf.length) (hne : buf[k] ≠ b) :
    Burst 32 buf (buf.set k b) where
  length := by rw [List.length_set]
  differ := by
    intro heq
    have hbyte : (buf.set k b)[k]? = some buf[k] := by rw [← heq, List.getElem?_eq_getElem hk]
    rw [List.getElem?_set_self hk] at hbyte
    exact hne (Option.some.inj hbyte).symm
  window := by
    refine ⟨8 * k, fun i hi => ?_⟩
    have hat : i / 8 = k := by
      by_contra hother
      apply hi
      simp [bitAt, List.getElem?_set_ne (Ne.symm hother)]
    omega

/-- Two buffers of one length that differ, but only within 32 consecutive bits, have different CRCs. -/
theorem crc32_detects_burst {buf buf' : List UInt8} (hlength : buf.length = buf'.length)
    (hne : buf ≠ buf') (start : Nat)
    (hwindow : ∀ i, bitAt buf i ≠ bitAt buf' i → start ≤ i ∧ i < start + 32) :
    crc32 buf ≠ crc32 buf' :=
  Burst.crc32_ne ⟨hlength, hne, start, hwindow⟩

theorem crossing_burst_detected : crc32 [0x31, 0x32] ≠ crc32 [0xB1, 0x33] := by
  refine crc32_detects_burst rfl (by decide) 7 ?_
  intro i hi
  have hbefore : ∀ i < 7, bitAt [0x31, 0x32] i = bitAt [0xB1, 0x33] i := by decide
  by_contra hout
  by_cases hlow : i < 7
  · exact hi (hbefore i hlow)
  · apply hi
    rw [bitAt_of_le, bitAt_of_le]
    · show 16 ≤ i
      omega
    · show 16 ≤ i
      omega

end Comp556.Transfer
