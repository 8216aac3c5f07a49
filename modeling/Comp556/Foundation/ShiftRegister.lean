import Mathlib.Data.List.Basic
import Mathlib.Logic.Function.Iterate

/-!
# Linear feedback shift registers

A register that is fed one bit after the other, least significant first, and xors a feedback word
into itself whenever the bit it drops is set. Feeding is linear, so two runs differ by what the
difference of their inputs leaves in an empty register.
-/

namespace Comp556.ShiftRegister

variable {w : Nat}

/-- One step of the register: the lowest bit drops out and, when set, xors the feedback word in. -/
def shift (feedback r : BitVec w) : BitVec w :=
  (r >>> 1) ^^^ (if r.getLsbD 0 then feedback else 0#w)

def ofBit (b : Bool) : BitVec w := if b then 1#w else 0#w

def feed (feedback r : BitVec w) (b : Bool) : BitVec w := shift feedback (r ^^^ ofBit b)

def run (feedback r : BitVec w) (bits : List Bool) : BitVec w := bits.foldl (feed feedback) r

/-- The word whose lowest bits are the given ones, least significant first. -/
def word : List Bool → BitVec w
  | [] => 0#w
  | b :: bits => ofBit b ^^^ (word bits <<< 1)

variable {feedback : BitVec w}

theorem run_append (r : BitVec w) (bits more : List Bool) :
    run feedback r (bits ++ more) = run feedback (run feedback r bits) more :=
  List.foldl_append

private theorem xor_xor_swap (a b c d : BitVec w) : (a ^^^ b) ^^^ (c ^^^ d) = (a ^^^ c) ^^^ (b ^^^ d) := by
  ac_rfl

private theorem choose_xor (a : BitVec w) (b c : Bool) :
    (if b ^^ c then a else 0#w) = (if b then a else 0#w) ^^^ (if c then a else 0#w) := by
  cases b <;> cases c <;> simp

private theorem shift_xor (r s : BitVec w) :
    shift feedback (r ^^^ s) = shift feedback r ^^^ shift feedback s := by
  unfold shift
  rw [BitVec.ushiftRight_xor_distrib, BitVec.getLsbD_xor, choose_xor, xor_xor_swap]

private theorem feed_xor (r s : BitVec w) (b c : Bool) :
    feed feedback (r ^^^ s) (b ^^ c) = feed feedback r b ^^^ feed feedback s c := by
  unfold feed ofBit
  rw [← shift_xor, choose_xor, xor_xor_swap]

private theorem run_xor (r s : BitVec w) {bits more : List Bool} (h : bits.length = more.length) :
    run feedback (r ^^^ s) (List.zipWith (· ^^ ·) bits more) =
      run feedback r bits ^^^ run feedback s more := by
  induction bits generalizing r s more with
  | nil =>
    have hmore : more = [] := List.length_eq_zero_iff.mp h.symm
    subst hmore
    rfl
  | cons b bits ih =>
    cases more with
    | nil => cases h
    | cons c more =>
      have hrest := ih (feed feedback r b) (feed feedback s c) (Nat.succ.inj h)
      rw [← feed_xor] at hrest
      exact hrest

private theorem shift_zero : shift feedback 0#w = 0#w := by
  simp [shift]

private theorem feed_false (r : BitVec w) : feed feedback r false = shift feedback r := by
  simp [feed, ofBit]

private theorem shift_ne_zero (htop : feedback.getMsbD 0 = true) {r : BitVec w} (hr : r ≠ 0#w) :
    shift feedback r ≠ 0#w := by
  have hw : 0 < w := by
    by_contra hzero
    have h0 : w = 0 := by omega
    subst h0
    exact hr (BitVec.eq_nil r ▸ rfl)
  intro hzero
  have hbit (i : Nat) : (shift feedback r).getLsbD i = false := by
    rw [hzero]
    exact BitVec.getLsbD_zero
  have htopbit : feedback.getLsbD (w - 1) = true := by
    simpa [BitVec.getMsbD, hw] using htop
  have hlow : r.getLsbD 0 = false := by
    have h := hbit (w - 1)
    by_contra hset
    have hset' : r.getLsbD 0 = true := by simpa using hset
    simp [shift, hset', htopbit, Nat.add_sub_cancel' hw] at h
  apply hr
  apply BitVec.eq_of_getLsbD_eq
  intro i hi
  rw [BitVec.getLsbD_zero]
  cases i with
  | zero => exact hlow
  | succ i =>
    have h := hbit i
    simpa [shift, hlow, Nat.add_comm] using h

private theorem iterate_ne_zero (htop : feedback.getMsbD 0 = true) {r : BitVec w} (hr : r ≠ 0#w) (n : Nat) :
    (shift feedback)^[n] r ≠ 0#w := by
  induction n generalizing r with
  | zero => exact hr
  | succ n ih => exact ih (shift_ne_zero htop hr)

private theorem run_falses (r : BitVec w) (n : Nat) :
    run feedback r (List.replicate n false) = (shift feedback)^[n] r := by
  induction n generalizing r with
  | zero => rfl
  | succ n ih =>
    rw [List.replicate_succ, run, List.foldl_cons, feed_false, Function.iterate_succ_apply]
    exact ih _

private theorem getLsbD_ofBit (b : Bool) (i : Nat) (hw : 0 < w) :
    (ofBit b : BitVec w).getLsbD i = (decide (i = 0) && b) := by
  cases b with
  | false => simp [ofBit]
  | true => simp [ofBit, BitVec.getLsbD_one, hw]

theorem getLsbD_word (bits : List Bool) (i : Nat) :
    (word bits : BitVec w).getLsbD i = (decide (i < w) && bits.getD i false) := by
  induction bits generalizing i with
  | nil => simp [word]
  | cons b bits ih =>
    by_cases hi : i < w
    · rw [word, BitVec.getLsbD_xor, getLsbD_ofBit b i (by omega), BitVec.getLsbD_shiftLeft, ih]
      cases i with
      | zero => simp [hi]
      | succ i => simp [hi, show i < w by omega]
    · rw [BitVec.getLsbD_of_ge _ _ (Nat.not_lt.mp hi)]
      simp [hi]

private theorem shift_word_shiftLeft {bits : List Bool} (h : bits.length < w) :
    shift feedback ((word bits : BitVec w) <<< 1) = word bits := by
  have hlow : ((word bits : BitVec w) <<< 1).getLsbD 0 = false := by
    simp
  rw [shift, hlow, if_neg Bool.false_ne_true, BitVec.xor_zero]
  apply BitVec.eq_of_getLsbD_eq
  intro i hi
  rw [BitVec.getLsbD_ushiftRight, BitVec.getLsbD_shiftLeft, Nat.add_sub_cancel_left, getLsbD_word]
  by_cases hlast : i + 1 < w
  · simp [hi, Nat.add_comm 1 i, hlast]
  · have hout : bits.length ≤ i := by omega
    simp [List.getElem?_eq_none hout]

/-- As many bits as fit into the register may be xored into it before it is shifted. -/
theorem run_eq_iterate (r : BitVec w) {bits : List Bool} (h : bits.length ≤ w) :
    run feedback r bits = (shift feedback)^[bits.length] (r ^^^ word bits) := by
  induction bits generalizing r with
  | nil => simp [run, word]
  | cons b bits ih =>
    have hlength : bits.length < w := h
    rw [run, List.foldl_cons]
    apply (ih (feed feedback r b) (Nat.le_of_lt hlength)).trans
    rw [List.length_cons, Function.iterate_succ_apply, word, ← BitVec.xor_assoc, shift_xor,
      shift_word_shiftLeft hlength, feed]

private theorem word_ne_zero {bits : List Bool} (h : bits.length ≤ w) (hset : true ∈ bits) :
    (word bits : BitVec w) ≠ 0#w := by
  obtain ⟨i, hi, htrue⟩ := List.getElem_of_mem hset
  intro hzero
  have hbit := getLsbD_word (w := w) bits i
  rw [hzero, BitVec.getLsbD_zero] at hbit
  simp [List.getElem?_eq_getElem hi, htrue, Nat.lt_of_lt_of_le hi h] at hbit

private theorem run_burst_ne_zero (htop : feedback.getMsbD 0 = true) {bits : List Bool} (h : bits.length ≤ w)
    (hset : true ∈ bits) : run feedback 0#w bits ≠ 0#w := by
  rw [run_eq_iterate _ h, BitVec.zero_xor]
  exact iterate_ne_zero htop (word_ne_zero h hset) _

private theorem eq_falses {bits : List Bool} (h : ∀ i : Nat, bits[i]? ≠ some true) :
    bits = List.replicate bits.length false := by
  apply List.eq_replicate_of_mem
  intro b hb
  obtain ⟨i, hi⟩ := List.mem_iff_getElem?.mp hb
  cases b with
  | false => rfl
  | true => exact absurd hi (h i)

private theorem run_ne_zero_of_window (htop : feedback.getMsbD 0 = true) {bits : List Bool} (hset : true ∈ bits)
    (start : Nat) (hwindow : ∀ i : Nat, bits[i]? = some true → start ≤ i ∧ i < start + w) :
    run feedback 0#w bits ≠ 0#w := by
  have hbefore : bits.take start = List.replicate (bits.take start).length false := by
    apply eq_falses
    intro i hi
    rw [List.getElem?_take] at hi
    split at hi
    · have h := hwindow i hi
      omega
    · cases hi
  have hafter : (bits.drop start).drop w = List.replicate ((bits.drop start).drop w).length false := by
    apply eq_falses
    intro i hi
    rw [List.getElem?_drop, List.getElem?_drop] at hi
    have h := hwindow _ hi
    omega
  have hburst : true ∈ (bits.drop start).take w := by
    obtain ⟨i, hi⟩ := List.mem_iff_getElem?.mp hset
    obtain ⟨hlow, hhigh⟩ := hwindow i hi
    apply List.mem_iff_getElem?.mpr
    refine ⟨i - start, ?_⟩
    rw [List.getElem?_take, if_pos (by omega), List.getElem?_drop, Nat.add_sub_cancel' hlow, hi]
  rw [← List.take_append_drop start bits, run_append, hbefore, run_falses,
    Function.iterate_fixed shift_zero, ← List.take_append_drop w (bits.drop start), run_append, hafter,
    run_falses]
  exact iterate_ne_zero htop (run_burst_ne_zero htop (List.length_take_le _ _) hburst) _

/-- Two inputs of one length that differ, but only within a window as wide as the register, leave different
registers behind. -/
theorem run_ne_of_burst (htop : feedback.getMsbD 0 = true) (r : BitVec w) {bits more : List Bool}
    (hlength : bits.length = more.length) (hne : bits ≠ more) (start : Nat)
    (hwindow : ∀ i : Nat, bits[i]? ≠ more[i]? → start ≤ i ∧ i < start + w) :
    run feedback r bits ≠ run feedback r more := by
  have hdiff (i : Nat) : (List.zipWith (· ^^ ·) bits more)[i]? = some true ↔ bits[i]? ≠ more[i]? := by
    rw [List.getElem?_zipWith]
    by_cases hi : i < bits.length
    · rw [List.getElem?_eq_getElem hi, List.getElem?_eq_getElem (hlength ▸ hi)]
      cases bits[i] <;> cases more[i] <;> simp
    · rw [List.getElem?_eq_none (Nat.not_lt.mp hi), List.getElem?_eq_none (hlength ▸ Nat.not_lt.mp hi)]
      simp
  have hset : true ∈ List.zipWith (· ^^ ·) bits more := by
    by_contra hnone
    apply hne
    apply List.ext_getElem?
    intro i
    by_contra hi
    exact hnone (List.mem_iff_getElem?.mpr ⟨i, (hdiff i).mpr hi⟩)
  have hdetected := run_ne_zero_of_window htop hset start fun i hi => hwindow i ((hdiff i).mp hi)
  intro heq
  apply hdetected
  have hlinear : run feedback (r ^^^ r) (List.zipWith (· ^^ ·) bits more) = _ := run_xor r r hlength
  rw [BitVec.xor_self, heq, BitVec.xor_self] at hlinear
  exact hlinear

end Comp556.ShiftRegister
