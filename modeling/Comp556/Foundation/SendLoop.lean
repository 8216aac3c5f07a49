import Mathlib.Algebra.BigOperators.Group.List.Basic
import Mathlib.Algebra.Ring.Int.Defs
import Mathlib.Data.List.Infix

/-!
# Loops that send until all is sent

A loop keeps one counter, the offset of its next call, and adds the result of every call to it: a
number of items that were taken, or -1 when none were. The results stand for whatever environment
there is.
-/

namespace Comp556.SendLoop

def offsets (offset : Int) : List Int → List Int
  | [] => []
  | r :: rs => offset :: offsets (offset + r) rs

/-- The positions of the items that are taken, call by call. -/
def handed (offset : Int) : List Int → List Int
  | [] => []
  | r :: rs => (List.range r.toNat).map (fun k : Nat => offset + k) ++ handed (offset + r) rs

/-- What calls may return while there is something left to send. -/
def Possible (size offset : Int) : List Int → Prop
  | [] => True
  | r :: rs => offset < size ∧ (r = -1 ∨ 1 ≤ r) ∧ r ≤ size - offset ∧ Possible size (offset + r) rs

variable {size offset : Int} {rs : List Int}

private theorem handed_length (h : Possible size offset rs) :
    ((handed offset rs).length : Int) = rs.sum + rs.count (-1) := by
  induction rs generalizing offset with
  | nil => rfl
  | cons r rs ih =>
    obtain ⟨-, hr, -, hrest⟩ := h
    have htail := ih hrest
    rw [handed, List.length_append, List.length_map, List.length_range, List.sum_cons, List.count_cons]
    rcases hr with rfl | hr
    · simp only [beq_self_eq_true, if_true]
      push_cast
      omega
    · have hne : (r == -1) = false := by
        rw [beq_eq_false_iff_ne]
        omega
      simp only [hne, Bool.false_eq_true, if_false]
      push_cast
      omega

private theorem sum_nonneg (h : Possible size offset rs) (hsent : -1 ∉ rs) : 0 ≤ rs.sum := by
  induction rs generalizing offset with
  | nil => exact Int.le_refl 0
  | cons r rs ih =>
    obtain ⟨-, hr, -, hrest⟩ := h
    obtain ⟨hne, hsent⟩ := List.ne_and_not_mem_of_not_mem_cons hsent
    have htail := ih hrest hsent
    rw [List.sum_cons]
    omega

private theorem handed_of_sent (h : Possible size offset rs) (hsent : -1 ∉ rs) :
    handed offset rs = (List.range rs.sum.toNat).map fun k : Nat => offset + k := by
  induction rs generalizing offset with
  | nil => rfl
  | cons r rs ih =>
    obtain ⟨-, hr, -, hrest⟩ := h
    obtain ⟨hne, hsent⟩ := List.ne_and_not_mem_of_not_mem_cons hsent
    have hpos : 1 ≤ r := hr.resolve_left fun heq => hne heq.symm
    have hsum := sum_nonneg hrest hsent
    have hsplit : (r + rs.sum).toNat = r.toNat + rs.sum.toNat := by omega
    rw [handed, ih hrest hsent, List.sum_cons, hsplit, List.range_add, List.map_append, List.map_map]
    congr 1
    apply List.map_congr_left
    intro k _
    simp only [Function.comp_apply]
    push_cast
    omega

private theorem offsets_of_sent (h : Possible size offset rs) (hsent : -1 ∉ rs) {o : Int}
    (ho : o ∈ offsets offset rs) : offset ≤ o ∧ o < size := by
  induction rs generalizing offset with
  | nil => cases ho
  | cons r rs ih =>
    obtain ⟨hless, hr, -, hrest⟩ := h
    obtain ⟨hne, hsent⟩ := List.ne_and_not_mem_of_not_mem_cons hsent
    have hpos : 1 ≤ r := hr.resolve_left fun heq => hne heq.symm
    rcases List.mem_cons.mp ho with rfl | ho
    · exact ⟨Int.le_refl _, hless⟩
    · have hbound := ih hrest hsent ho
      exact ⟨by omega, hbound.2⟩

theorem sum_le (h : Possible size offset rs) (hle : offset ≤ size) : offset + rs.sum ≤ size := by
  induction rs generalizing offset with
  | nil => simpa using hle
  | cons r rs ih =>
    obtain ⟨-, -, hroom, hrest⟩ := h
    have hbound := ih hrest (by omega)
    rw [List.sum_cons]
    omega

variable {α : Type*} {items : Int → α} {m : List α}

/-- What has gone out is the beginning of the message, in calls inside it, and all of it in the end. -/
structure SendsOnce (m : List α) (ended : Prop) (transmitted : List α) (offsets : List Int) : Prop where
  inside : ∀ o ∈ offsets, 0 ≤ o ∧ o < m.length
  inOrder : transmitted <+: m
  whole : ended → transmitted = m

private theorem map_range_eq_take (hm : ∀ (k : Nat) (a : α), m[k]? = some a → items k = a) {n : Nat}
    (hn : n ≤ m.length) : (List.range n).map (fun k : Nat => items (0 + k)) = m.take n := by
  apply List.ext_getElem
  · simp [hn]
  · intro k hk hk'
    have hkm : k < m.length := by
      rw [List.length_take] at hk'
      omega
    simp [hm k _ (List.getElem?_eq_getElem hkm)]

/-- Calls that never fail send the message once and in order. -/
theorem sendsOnce_of_sent (hm : ∀ (k : Nat) (a : α), m[k]? = some a → items k = a)
    (h : Possible m.length 0 rs) (hsent : -1 ∉ rs) {ended : Prop} (hended : ended ↔ rs.sum = m.length) :
    SendsOnce m ended ((handed 0 rs).map items) (offsets 0 rs) := by
  have hlow := sum_nonneg h hsent
  have hhigh := sum_le h (Int.natCast_nonneg _)
  have hfirst : (handed 0 rs).map items = m.take rs.sum.toNat := by
    rw [handed_of_sent h hsent, List.map_map]
    exact map_range_eq_take hm (by omega)
  constructor
  · intro o ho
    exact offsets_of_sent h hsent ho
  · rw [hfirst]
    exact List.take_prefix _ _
  · intro hend
    have hsum := hended.mp hend
    rw [hfirst]
    exact List.take_of_length_le (by omega)

/-- A loop that has ended has sent its message once, in order and from inside it if and only if no call
failed. -/
theorem sendsOnce_iff (hm : ∀ (k : Nat) (a : α), m[k]? = some a → items k = a)
    (h : Possible m.length 0 rs) {ended : Prop} (hended : ended ↔ rs.sum = m.length) (hend : ended) :
    SendsOnce m ended ((handed 0 rs).map items) (offsets 0 rs) ↔ -1 ∉ rs := by
  constructor
  · intro honce hfailed
    -- more items have gone out than there are
    have hlength := handed_length h
    have hcount := List.count_pos_iff.mpr hfailed
    have hsum := hended.mp hend
    have hall := congrArg List.length (honce.whole hend)
    rw [List.length_map] at hall
    omega
  · intro hsent
    exact sendsOnce_of_sent hm h hsent hended

end Comp556.SendLoop
