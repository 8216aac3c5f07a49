import Mathlib.Data.List.Forall2
import Mathlib.Data.Multiset.AddSub

/-!
# Numbered items

Items under way in no particular order, of which each carries a number that says how early it was sent.
-/

namespace Comp556

variable {A B : Type*}

def InSequence (items : Multiset (Nat × A)) (sequence : List A) : Prop :=
  ∃ l : List (Nat × A), (l : Multiset (Nat × A)) = items ∧ l.Pairwise (fun m n => m.1 < n.1) ∧
    l.map Prod.snd = sequence

namespace InSequence

variable {items : Multiset (Nat × A)} {sequence : List A} {m : Nat × A}

theorem nil : InSequence (0 : Multiset (Nat × A)) [] := ⟨[], rfl, .nil, rfl⟩

/-- Items sent later come last. -/
theorem append (h : InSequence items sequence) {more : List (Nat × A)}
    (hmore : more.Pairwise fun m n => m.1 < n.1) (hlater : ∀ m ∈ items, ∀ n ∈ more, m.1 < n.1) :
    InSequence (items + (more : Multiset (Nat × A))) (sequence ++ more.map Prod.snd) := by
  obtain ⟨l, rfl, hl, rfl⟩ := h
  refine ⟨l ++ more, rfl, List.pairwise_append.mpr ⟨hl, hmore, fun m hm n hn => hlater m hm n hn⟩, ?_⟩
  rw [List.map_append]

/-- The item sent first is the first of the sequence. -/
theorem head (h : InSequence (m ::ₘ items) sequence) (hfirst : ∀ n ∈ items, m.1 ≤ n.1) :
    ∃ rest, sequence = m.2 :: rest ∧ InSequence items rest := by
  obtain ⟨l, hl, hsorted, rfl⟩ := h
  cases l with
  | nil => exact absurd hl.symm (Multiset.cons_ne_zero)
  | cons n l =>
    obtain ⟨hbefore, hsorted⟩ := List.pairwise_cons.mp hsorted
    have hsame : n = m := by
      have hm : m ∈ n :: l := Multiset.mem_coe.mp (hl ▸ Multiset.mem_cons_self m items)
      rcases List.mem_cons.mp hm with rfl | hm
      · rfl
      · have hn : n ∈ m ::ₘ items := hl ▸ Multiset.mem_coe.mpr List.mem_cons_self
        rcases Multiset.mem_cons.mp hn with rfl | hn
        · rfl
        · exact absurd (hbefore m hm) (Nat.not_lt.mpr (hfirst n hn))
    subst hsame
    rw [← Multiset.cons_coe, Multiset.cons_inj_right] at hl
    exact ⟨l.map Prod.snd, rfl, l, hl, hsorted, rfl⟩

/-- What is left when an item is lost. -/
theorem lose (h : InSequence (m ::ₘ items) sequence) :
    ∃ left, left.Sublist sequence ∧ InSequence items left := by
  obtain ⟨l, hl, hsorted, rfl⟩ := h
  obtain ⟨l₁, l₂, rfl⟩ := List.append_of_mem (Multiset.mem_coe.mp (hl ▸ Multiset.mem_cons_self m items))
  have hsub : (l₁ ++ l₂).Sublist (l₁ ++ m :: l₂) := (List.sublist_cons_self m l₂).append_left l₁
  refine ⟨(l₁ ++ l₂).map Prod.snd, hsub.map Prod.snd, l₁ ++ l₂, ?_, hsorted.sublist hsub, rfl⟩
  rw [Multiset.coe_eq_coe.mpr List.perm_middle, ← Multiset.cons_coe, Multiset.cons_inj_right] at hl
  exact hl

end InSequence

private theorem forall₂_exists_right {R : A → B → Prop} {l : List A} {l' : List B} (h : List.Forall₂ R l l')
    {a : A} (ha : a ∈ l) : ∃ b ∈ l', R a b := by
  induction h with
  | nil => cases ha
  | cons hab _ ih =>
    rcases List.mem_cons.mp ha with rfl | ha
    · exact ⟨_, List.mem_cons_self, hab⟩
    · obtain ⟨b, hb, hab⟩ := ih ha
      exact ⟨b, List.mem_cons_of_mem _ hb, hab⟩

theorem forall₂_exists_left {R : A → B → Prop} {l : List A} {l' : List B} (h : List.Forall₂ R l l') {b : B}
    (hb : b ∈ l') : ∃ a ∈ l, R a b :=
  forall₂_exists_right (R := flip R) (List.Forall₂.flip h) hb

end Comp556
