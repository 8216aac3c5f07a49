import Comp556.Foundation.Run
import Mathlib.Data.Set.Basic

/-!
# Flooding numbered messages

One node issues messages with rising numbers. A node that receives a number higher than the one it
holds keeps it and sends it on to all its neighbours but the one it came from; it ignores other
copies. Copies may overtake each other and be duplicated, but none is lost.
-/

namespace Comp556

/-- A numbered message on its way over a link. -/
structure Copy (V : Type*) where
  sender : V
  receiver : V
  number : Nat

/-- The number each node holds, with the source's own at the source, and the copies under way. -/
structure Flood (V : Type*) where
  held : V → Nat
  flight : Set (Copy V)

namespace Flood

variable {V : Type*}

/-- The flight after `c` has been taken from it once. Another copy of `c` may be left. -/
def Taken (c : Copy V) (st st' : Flood V) : Prop :=
  c ∈ st.flight ∧ ∀ c' ∈ st.flight, c' ≠ c → c' ∈ st'.flight

inductive Step (adj : V → V → Prop) (source : V) (st st' : Flood V) : Prop
  /-- The source issues the next number to all its neighbours. -/
  | issue (hheld : st'.held source = st.held source + 1)
      (hothers : ∀ v, v ≠ source → st'.held v = st.held v)
      (hkept : st.flight ⊆ st'.flight)
      (hsent : ∀ x, adj source x → ⟨source, x, st.held source + 1⟩ ∈ st'.flight)
      (honly : ∀ c ∈ st'.flight, c ∈ st.flight ∨ c.sender = source ∧ c.number = st.held source + 1)
  /-- A node accepts a number higher than the one it holds. -/
  | accept (c : Copy V) (htaken : Taken c st st') (hreceiver : c.receiver ≠ source)
      (hnew : st.held c.receiver < c.number) (hheld : st'.held c.receiver = c.number)
      (hothers : ∀ v, v ≠ c.receiver → st'.held v = st.held v)
      (hsent : ∀ x, adj c.receiver x → x ≠ c.sender → ⟨c.receiver, x, c.number⟩ ∈ st'.flight)
      (honly : ∀ c' ∈ st'.flight,
        c' ∈ st.flight ∨ c'.sender = c.receiver ∧ c'.number = c.number)
  /-- A node ignores a number that is not higher; the source may send one of its own on again. -/
  | ignore (c : Copy V) (htaken : Taken c st st')
      (hold : c.receiver = source ∨ c.number ≤ st.held c.receiver)
      (hheld : ∀ v, st'.held v = st.held v)
      (honly : ∀ c' ∈ st'.flight, c' ∈ st.flight ∨
        c.receiver = source ∧ c'.sender = source ∧ c'.number = c.number)
  /-- Nothing that concerns the source. -/
  | other (hheld : ∀ v, st'.held v = st.held v) (hflight : ∀ c, c ∈ st'.flight ↔ c ∈ st.flight)

/-- Over every link the far end is up to date or a fresh enough copy is on its way to it, and nobody
sends a number beyond its own. -/
structure Inv (adj : V → V → Prop) (source : V) (st : Flood V) : Prop where
  covered : ∀ a b, adj a b → b ≠ source → st.held a ≤ st.held b ∨
    ∃ c ∈ st.flight, c.receiver = b ∧ st.held a ≤ c.number
  backed : ∀ c ∈ st.flight, c.number ≤ st.held c.sender
  bounded : ∀ v, st.held v ≤ st.held source

variable {adj : V → V → Prop} {source : V} {st st' : Flood V}

theorem Inv.issue (h : Inv adj source st) (hheld : st'.held source = st.held source + 1)
    (hothers : ∀ v, v ≠ source → st'.held v = st.held v) (hkept : st.flight ⊆ st'.flight)
    (hsent : ∀ x, adj source x → ⟨source, x, st.held source + 1⟩ ∈ st'.flight)
    (honly : ∀ c ∈ st'.flight, c ∈ st.flight ∨ c.sender = source ∧ c.number = st.held source + 1) :
    Inv adj source st' := by
  have hgrow (v : V) : st.held v ≤ st'.held v := by
    by_cases hv : v = source
    · rw [hv, hheld]
      exact Nat.le_succ _
    · rw [hothers v hv]
  constructor
  case covered =>
    intro a b hab hb
    by_cases ha : a = source
    · rw [ha, hheld]
      exact .inr ⟨_, hsent b (ha ▸ hab), rfl, Nat.le_refl _⟩
    · rw [hothers a ha, hothers b hb]
      exact (h.covered a b hab hb).imp_right fun ⟨c, hc, hrest⟩ => ⟨c, hkept hc, hrest⟩
  case backed =>
    intro c hc
    rcases honly c hc with hc | ⟨hsender, hnumber⟩
    · exact Nat.le_trans (h.backed c hc) (hgrow _)
    · rw [hsender, hnumber, hheld]
  case bounded =>
    intro v
    by_cases hv : v = source
    · rw [hv]
    · rw [hothers v hv, hheld]
      exact Nat.le_succ_of_le (h.bounded v)

theorem Inv.accept (h : Inv adj source st) (c : Copy V) (htaken : Taken c st st')
    (hreceiver : c.receiver ≠ source) (hnew : st.held c.receiver < c.number)
    (hheld : st'.held c.receiver = c.number)
    (hothers : ∀ v, v ≠ c.receiver → st'.held v = st.held v)
    (hsent : ∀ x, adj c.receiver x → x ≠ c.sender → ⟨c.receiver, x, c.number⟩ ∈ st'.flight)
    (honly : ∀ c' ∈ st'.flight, c' ∈ st.flight ∨ c'.sender = c.receiver ∧ c'.number = c.number) :
    Inv adj source st' := by
  obtain ⟨hc, hkept⟩ := htaken
  have hgrow (v : V) : st.held v ≤ st'.held v := by
    by_cases hv : v = c.receiver
    · rw [hv, hheld]
      exact Nat.le_of_lt hnew
    · rw [hothers v hv]
  constructor
  case covered =>
    intro a b hab hb
    by_cases ha : a = c.receiver
    · -- what the receiver now holds it sends on, unless it came from there
      rw [ha, hheld]
      by_cases hback : b = c.sender
      · rw [hback]
        exact .inl (Nat.le_trans (h.backed c hc) (hgrow _))
      · exact .inr ⟨_, hsent b (ha ▸ hab) hback, rfl, Nat.le_refl _⟩
    · rw [hothers a ha]
      rcases h.covered a b hab hb with hle | ⟨c', hc', hto, hle⟩
      · exact .inl (Nat.le_trans hle (hgrow b))
      · by_cases hsame : c' = c
        · subst hsame
          exact .inl (by rw [← hto, hheld]; exact hle)
        · exact .inr ⟨c', hkept c' hc' hsame, hto, hle⟩
  case backed =>
    intro c' hc'
    rcases honly c' hc' with hc' | ⟨hsender, hnumber⟩
    · exact Nat.le_trans (h.backed c' hc') (hgrow _)
    · rw [hsender, hnumber, hheld]
  case bounded =>
    intro v
    have hsource : st'.held source = st.held source := hothers source (Ne.symm hreceiver)
    by_cases hv : v = c.receiver
    · rw [hv, hheld, hsource]
      exact Nat.le_trans (h.backed c hc) (h.bounded _)
    · rw [hothers v hv, hsource]
      exact h.bounded v

theorem Inv.ignore (h : Inv adj source st) (c : Copy V) (htaken : Taken c st st')
    (hold : c.receiver = source ∨ c.number ≤ st.held c.receiver)
    (hheld : ∀ v, st'.held v = st.held v)
    (honly : ∀ c' ∈ st'.flight, c' ∈ st.flight ∨
      c.receiver = source ∧ c'.sender = source ∧ c'.number = c.number) :
    Inv adj source st' := by
  obtain ⟨hc, hkept⟩ := htaken
  constructor
  case covered =>
    intro a b hab hb
    rw [hheld, hheld]
    rcases h.covered a b hab hb with hle | ⟨c', hc', hto, hle⟩
    · exact .inl hle
    · by_cases hsame : c' = c
      · subst hsame
        rcases hold with hsource | hnumber
        · exact absurd (hto.symm.trans hsource) hb
        · exact .inl (Nat.le_trans hle (hto ▸ hnumber))
      · exact .inr ⟨c', hkept c' hc' hsame, hto, hle⟩
  case backed =>
    intro c' hc'
    rw [hheld]
    rcases honly c' hc' with hc' | ⟨_, hsender, hnumber⟩
    · exact h.backed c' hc'
    · rw [hsender, hnumber]
      exact Nat.le_trans (h.backed c hc) (h.bounded _)
  case bounded =>
    intro v
    rw [hheld, hheld]
    exact h.bounded v

theorem Inv.step (h : Inv adj source st) (hstep : Step adj source st st') : Inv adj source st' := by
  cases hstep with
  | issue hheld hothers hkept hsent honly => exact h.issue hheld hothers hkept hsent honly
  | accept c htaken hreceiver hnew hheld hothers hsent honly =>
    exact h.accept c htaken hreceiver hnew hheld hothers hsent honly
  | ignore c htaken hold hheld honly => exact h.ignore c htaken hold hheld honly
  | other hheld hflight =>
    constructor
    case covered =>
      intro a b hab hb
      rw [hheld, hheld]
      exact (h.covered a b hab hb).imp_right fun ⟨c, hc, hrest⟩ => ⟨c, (hflight c).mpr hc, hrest⟩
    case backed =>
      intro c hc
      rw [hheld]
      exact h.backed c ((hflight c).mp hc)
    case bounded =>
      intro v
      rw [hheld, hheld]
      exact h.bounded v

theorem Inv.start (adj : V → V → Prop) (source : V) (hheld : ∀ v, st.held v = 0)
    (hflight : ∀ c, c ∉ st.flight) : Inv adj source st where
  covered a b _ _ := .inl (by rw [hheld, hheld])
  backed c hc := absurd hc (hflight c)
  bounded v := by rw [hheld, hheld]

/-- When no copy is under way, every node the source is connected to holds the source's latest number. -/
theorem Inv.agree (h : Inv adj source st) (hrest : ∀ c, c ∉ st.flight) {v : V}
    (hconnected : Relation.ReflTransGen adj source v) : st.held v = st.held source := by
  apply Nat.le_antisymm (h.bounded v)
  induction hconnected with
  | refl => exact Nat.le_refl _
  | @tail a b _ hab ih =>
    by_cases hb : b = source
    · rw [hb]
    · rcases h.covered a b hab hb with hle | ⟨c, hc, _⟩
      · exact Nat.le_trans ih hle
      · exact absurd hc (hrest c)

end Flood

end Comp556
