import Mathlib.Data.List.Nodup

/-!
# Shortest walks by next hops

A table of costs towards one target that no edge can improve, and whose every entry is accounted
for by a next hop, holds the distances to that target; following the next hops is a shortest walk.
-/

namespace Comp556

variable {V : Type*}

/-- There is a walk from one vertex to another of the given total weight. -/
inductive Walk (edge : V → V → Nat → Prop) : V → V → Nat → Prop
  | nil (v : V) : Walk edge v v 0
  | cons {u v t : V} {c n : Nat} : edge u v c → Walk edge v t n → Walk edge u t (c + n)

/-- The least weight of a walk. -/
def IsDistance (edge : V → V → Nat → Prop) (u t : V) (n : Nat) : Prop :=
  Walk edge u t n ∧ ∀ m, Walk edge u t m → n ≤ m

/-- A walk made of hops, with the vertices it visits. -/
inductive Trail (hop : V → V → Prop) (edge : V → V → Nat → Prop) : V → V → List V → Nat → Prop
  | nil (v : V) : Trail hop edge v v [v] 0
  | cons {u v t : V} {path : List V} {c n : Nat} : hop u v → edge u v c →
      Trail hop edge v t path n → Trail hop edge u t (u :: path) (c + n)

/-- Bellman's equations for the costs towards `t`: next hops account for every cost, and no edge
leads to a lower one. -/
structure Bellman (hop : V → V → Prop) (edge : V → V → Nat → Prop) (t : V) (cost : V → Option Nat) :
    Prop where
  target : cost t = some 0
  step : ∀ u n, u ≠ t → cost u = some n →
    ∃ v c m, hop u v ∧ edge u v c ∧ 0 < c ∧ cost v = some m ∧ n = c + m
  relaxed : ∀ u v c n, edge u v c → cost v = some n → ∃ m, cost u = some m ∧ m ≤ c + n

variable {hop : V → V → Prop} {edge : V → V → Nat → Prop} {t : V} {cost : V → Option Nat}

theorem Trail.walk {u : V} {path : List V} {n : Nat} (h : Trail hop edge u t path n) :
    Walk edge u t n := by
  induction h with
  | nil v => exact .nil v
  | cons _ hedge _ ih => exact .cons hedge ih

theorem Trail.mono {hop' : V → V → Prop} (hhop : ∀ a b, hop a b → hop' a b) {u : V} {path : List V} {n : Nat}
    (h : Trail hop edge u t path n) : Trail hop' edge u t path n := by
  induction h with
  | nil v => exact .nil v
  | cons hfirst hedge _ ih => exact .cons (hhop _ _ hfirst) hedge ih

theorem Walk.concat {u v t : V} {n c : Nat} (h : Walk edge u v n) (hedge : edge v t c) :
    Walk edge u t (n + c) := by
  induction h with
  | nil v =>
    rw [Nat.zero_add]
    exact .cons hedge (.nil t)
  | cons hfirst _ ih =>
    rw [Nat.add_assoc]
    exact .cons hfirst (ih hedge)

theorem Walk.reverse (hsymm : ∀ u v c, edge u v c → edge v u c) {u v : V} {n : Nat} (h : Walk edge u v n) :
    Walk edge v u n := by
  induction h with
  | nil v => exact .nil v
  | cons hfirst _ ih =>
    rw [Nat.add_comm]
    exact ih.concat (hsymm _ _ _ hfirst)

namespace Bellman

private theorem le_walk (h : Bellman hop edge t cost) {u : V} {k : Nat} (hwalk : Walk edge u t k) :
    ∃ n, cost u = some n ∧ n ≤ k := by
  have htarget := h.target
  have hrelaxed := h.relaxed
  clear h
  induction hwalk with
  | nil v => exact ⟨0, htarget, Nat.le_refl 0⟩
  | cons hedge _ ih =>
    obtain ⟨m, hm, hle⟩ := ih htarget
    obtain ⟨n, hn, hle'⟩ := hrelaxed _ _ _ _ hedge hm
    exact ⟨n, hn, by omega⟩

/-- Costs fall along next hops, so following them visits no vertex twice. -/
theorem trail (h : Bellman hop edge t cost) {u : V} {n : Nat} (hn : cost u = some n) :
    ∃ path, Trail hop edge u t path n ∧ path.Nodup ∧ ∀ v ∈ path, ∃ m, cost v = some m ∧ m ≤ n := by
  induction n using Nat.strongRecOn generalizing u with
  | ind n ih =>
    by_cases hu : u = t
    · subst hu
      obtain rfl := Option.some.inj (h.target.symm.trans hn)
      exact ⟨[u], .nil u, List.nodup_singleton u, by simp [hn]⟩
    · obtain ⟨v, c, m, hhop, hedge, hc, hm, rfl⟩ := h.step u n hu hn
      obtain ⟨path, htrail, hnodup, hbound⟩ := ih m (by omega) hm
      refine ⟨u :: path, .cons hhop hedge htrail, List.nodup_cons.mpr ⟨fun hmem => ?_, hnodup⟩, ?_⟩
      · obtain ⟨k, hk, hle⟩ := hbound u hmem
        obtain rfl := Option.some.inj (hk.symm.trans hn)
        omega
      · intro w hw
        rcases List.mem_cons.mp hw with rfl | hw
        · exact ⟨c + m, hn, Nat.le_refl _⟩
        · obtain ⟨k, hk, hle⟩ := hbound w hw
          exact ⟨k, hk, by omega⟩

theorem isDistance (h : Bellman hop edge t cost) {u : V} {n : Nat} (hn : cost u = some n) :
    IsDistance edge u t n := by
  obtain ⟨path, htrail, -, -⟩ := h.trail hn
  refine ⟨htrail.walk, fun m hm => ?_⟩
  obtain ⟨k, hk, hle⟩ := h.le_walk hm
  exact Option.some.inj (hn.symm.trans hk) ▸ hle

theorem reaches_iff (h : Bellman hop edge t cost) (u : V) :
    (∃ n, Walk edge u t n) ↔ (cost u).isSome := by
  constructor
  · rintro ⟨k, hk⟩
    obtain ⟨n, hn, -⟩ := h.le_walk hk
    simp [hn]
  · intro hsome
    obtain ⟨n, hn⟩ := Option.isSome_iff_exists.mp hsome
    exact ⟨n, (h.isDistance hn).1⟩

end Bellman

end Comp556
