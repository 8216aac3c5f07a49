import Mathlib.Data.List.Sort
import Mathlib.Data.Multiset.AddSub

/-!
# Priority queues

A queue whose top is an element with the smallest key. The laws leave open which of several such
elements is on top, but a push may displace the top only by a strictly smaller key.
-/

namespace Comp556

/-- An implementation of priority queues, with the laws it keeps. -/
structure PriorityQueue (α : Type) {κ : Type} [LinearOrder κ] (key : α → κ) where
  Queue : Type
  empty : Queue
  push : α → Queue → Queue
  top : Queue → Option α
  pop : Queue → Queue
  /-- The contents. -/
  elements : Queue → Multiset α
  elements_empty : elements empty = 0
  elements_push : ∀ a q, elements (push a q) = a ::ₘ elements q
  elements_pop : ∀ {a q}, top q = some a → elements q = a ::ₘ elements (pop q)
  top_eq_none : ∀ {q}, top q = none → elements q = 0
  top_le : ∀ {a b q}, top q = some a → b ∈ elements q → key a ≤ key b
  top_push : ∀ {a b q}, top q = some a → ¬ key b < key a → top (push b q) = some a

namespace PriorityQueue

variable {α κ : Type} [LinearOrder κ] {key : α → κ}

section Laws

variable (queue : PriorityQueue α key)

def pushAll (news : List α) (q : queue.Queue) : queue.Queue := news.foldl (fun q a => queue.push a q) q

@[simp] theorem pushAll_nil (q : queue.Queue) : queue.pushAll [] q = q := rfl

theorem pushAll_append (news more : List α) (q : queue.Queue) :
    queue.pushAll (news ++ more) q = queue.pushAll more (queue.pushAll news q) :=
  List.foldl_append

theorem elements_pushAll (news : List α) (q : queue.Queue) :
    queue.elements (queue.pushAll news q) = queue.elements q + news := by
  induction news generalizing q with
  | nil => simp
  | cons a news ih =>
    have hfirst : queue.pushAll (a :: news) q = queue.pushAll news (queue.push a q) := rfl
    rw [hfirst, ih, elements_push, ← Multiset.cons_coe, Multiset.cons_add, Multiset.add_cons]

/-- Pushing nothing smaller leaves the top where it is. -/
theorem top_pushAll {q : queue.Queue} {a : α} (htop : queue.top q = some a) {news : List α}
    (hnews : ∀ b ∈ news, ¬ key b < key a) : queue.top (queue.pushAll news q) = some a := by
  induction news generalizing q with
  | nil => exact htop
  | cons b news ih =>
    obtain ⟨hb, hrest⟩ := List.forall_mem_cons.mp hnews
    exact ih (queue.top_push htop hb) hrest

theorem mem_of_top {q : queue.Queue} {a : α} (htop : queue.top q = some a) : a ∈ queue.elements q := by
  rw [queue.elements_pop htop]
  exact Multiset.mem_cons_self a _

end Laws

variable (key) in
/-- Sorted lists. Elements with the same key stand in any order that the insertion of a new one chooses,
except that it stays behind the top. -/
abbrev SortedList := {l : List α // l.Pairwise fun a b => key a ≤ key b}

variable (key) in
/-- An order of insertion that goes by the key wherever the keys differ. -/
structure ByKey (before : α → α → Prop) : Prop where
  of_lt : ∀ {a b}, key a < key b → before a b
  le : ∀ {a b}, before a b → key a ≤ key b

private theorem byKey_lt : ByKey key fun a b => key a < key b := ⟨fun h => h, fun h => h.le⟩

private theorem byKey_le : ByKey key fun a b => key a ≤ key b := ⟨fun h => h.le, fun h => h⟩

private theorem sorted_cons_cons {a b : α} {l : List α} (hab : key a ≤ key b)
    (hl : (b :: l).Pairwise fun a b => key a ≤ key b) :
    (a :: b :: l).Pairwise fun a b => key a ≤ key b := by
  refine .cons ?_ hl
  intro c hc
  rcases List.mem_cons.mp hc with rfl | hc
  · exact hab
  · exact hab.trans (List.rel_of_pairwise_cons hl hc)

variable {before : α → α → Prop} [DecidableRel before]

private theorem sorted_cons_orderedInsert {a b : α} {l : List α} (hba : key b ≤ key a)
    (hl : (b :: l).Pairwise fun a b => key a ≤ key b)
    (htail : (l.orderedInsert before a).Pairwise fun a b => key a ≤ key b) :
    (b :: l.orderedInsert before a).Pairwise fun a b => key a ≤ key b := by
  refine .cons ?_ htail
  intro c hc
  rcases (List.mem_orderedInsert _).mp hc with rfl | hc
  · exact hba
  · exact List.rel_of_pairwise_cons hl hc

private theorem sorted_orderedInsert (h : ByKey key before) (a : α) {l : List α}
    (hl : l.Pairwise fun a b => key a ≤ key b) :
    (l.orderedInsert before a).Pairwise fun a b => key a ≤ key b := by
  induction l with
  | nil => simp
  | cons b l ih =>
    rw [List.orderedInsert]
    split
    case isTrue hab => exact sorted_cons_cons (h.le hab) hl
    case isFalse hab =>
      have hba : key b ≤ key a := not_lt.mp fun hlt => hab (h.of_lt hlt)
      exact sorted_cons_orderedInsert hba hl (ih hl.of_cons)

variable (key before) in
/-- A new element comes first only if its key is smaller than that of the top. -/
def insert (a : α) : List α → List α
  | [] => [a]
  | b :: l => if key a < key b then a :: b :: l else b :: l.orderedInsert before a

private theorem sorted_insert (h : ByKey key before) (a : α) {l : List α}
    (hl : l.Pairwise fun a b => key a ≤ key b) :
    (insert key before a l).Pairwise fun a b => key a ≤ key b := by
  cases l with
  | nil => simp [insert]
  | cons b l =>
    rw [insert]
    split
    case isTrue hab => exact sorted_cons_cons hab.le hl
    case isFalse hab =>
      exact sorted_cons_orderedInsert (not_lt.mp hab) hl (sorted_orderedInsert h a hl.of_cons)

private theorem perm_insert (a : α) (l : List α) : (insert key before a l).Perm (a :: l) := by
  cases l with
  | nil => rfl
  | cons b l =>
    rw [insert]
    split
    · rfl
    · exact ((List.perm_orderedInsert _ a l).cons b).trans (.swap a b l)

/-- Sorted lists are priority queues. -/
def sortedList (h : ByKey key before) : PriorityQueue α key where
  Queue := SortedList key
  empty := ⟨[], .nil⟩
  push a q := ⟨insert key before a q.1, sorted_insert h a q.2⟩
  top q := q.1.head?
  pop q := ⟨q.1.tail, q.2.sublist (List.tail_sublist _)⟩
  elements q := q.1
  elements_empty := rfl
  elements_push a q := Multiset.coe_eq_coe.mpr (perm_insert a q.1)
  elements_pop {a q} htop := by
    obtain ⟨l, hl⟩ := q
    obtain ⟨rest, rfl⟩ := List.head?_eq_some_iff.mp htop
    rfl
  top_eq_none {q} htop := by
    rw [List.head?_eq_none_iff.mp htop]
    rfl
  top_le {a b q} htop hb := by
    obtain ⟨l, hl⟩ := q
    obtain ⟨rest, rfl⟩ := List.head?_eq_some_iff.mp htop
    rcases List.mem_cons.mp hb with rfl | hb
    · exact le_rfl
    · exact List.rel_of_pairwise_cons hl hb
  top_push {a b q} htop hab := by
    obtain ⟨l, hl⟩ := q
    obtain ⟨rest, rfl⟩ := List.head?_eq_some_iff.mp htop
    simp [insert, hab]

/-- Of the elements with the same key, the one that was pushed first comes first. -/
def oldestFirst : PriorityQueue α key := sortedList byKey_lt

/-- Of the elements with the same key behind the top, the one that was pushed last comes first. -/
def newestFirst : PriorityQueue α key := sortedList byKey_le

end PriorityQueue

end Comp556
