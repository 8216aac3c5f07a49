import Mathlib.Logic.Relation
import Mathlib.Order.WellFounded

/-!
# Invariants of runs

A run of a transition relation is its reflexive transitive closure.
-/

namespace Comp556

variable {S : Type*} {step : S → S → Prop}

/-- What holds at the start and survives every step holds in every state reached. -/
theorem run_invariant (inv : S → Prop) {s s' : S} (hrun : Relation.ReflTransGen step s s')
    (hs : inv s) (hstep : ∀ a b, inv a → step a b → inv b) : inv s' := by
  induction hrun with
  | refl => exact hs
  | tail _ hlast ih => exact hstep _ _ ih hlast

/-- Steps that keep an invariant and lower a measure do not go on for ever. -/
theorem run_terminates {M : Type*} [LT M] [WellFoundedLT M] (inv : S → Prop) (measure : S → M)
    (hstep : ∀ a b, inv a → step a b → inv b ∧ measure b < measure a) {s : S} (hs : inv s) :
    Acc (fun b a => step a b) s := by
  induction h : measure s using WellFoundedLT.induction generalizing s with
  | ind m ih =>
    subst h
    refine .intro _ fun b hb => ?_
    obtain ⟨hinv, hless⟩ := hstep s b hs hb
    exact ih _ hless hinv rfl

/-- The invariant rule for a loop that may fail. -/
theorem foldlM_invariant {A : Type*} {body : S → A → Option S} (inv : S → Prop) {l : List A} {s s' : S}
    (hrun : l.foldlM body s = some s') (hs : inv s)
    (hbody : ∀ a x b, inv a → body a x = some b → inv b) : inv s' := by
  induction l generalizing s with
  | nil => exact Option.some.inj hrun ▸ hs
  | cons x l ih =>
    rw [List.foldlM_cons] at hrun
    obtain ⟨b, hb, hrest⟩ := Option.bind_eq_some_iff.mp hrun
    exact ih hrest (hbody s x b hs hb)

section Actions

variable {A : Type*} {next : S → A → S}

/-- Each action meets the condition in the state in which it is taken. -/
def Along (next : S → A → S) (P : S → A → Prop) : S → List A → Prop
  | _, [] => True
  | s, a :: actions => P s a ∧ Along next P (next s a) actions

instance decidableAlong {P : S → A → Prop} [∀ s a, Decidable (P s a)] :
    (s : S) → (actions : List A) → Decidable (Along next P s actions)
  | _, [] => isTrue trivial
  | s, a :: actions =>
    have : Decidable (Along next P (next s a) actions) := decidableAlong (next s a) actions
    inferInstanceAs (Decidable (_ ∧ _))

/-- If they come to the same wherever an invariant holds, and keep it, they come to the same along a run. -/
theorem along_iff {E P Q : S → A → Prop} (inv : S → Prop)
    (hstep : ∀ s a, inv s → E s a → (P s a ↔ Q s a))
    (hkeep : ∀ s a, inv s → E s a → P s a → inv (next s a)) {s : S} (hs : inv s) {actions : List A}
    (hrun : Along next E s actions) : Along next P s actions ↔ Along next Q s actions := by
  induction actions generalizing s with
  | nil => exact Iff.rfl
  | cons a actions ih =>
    obtain ⟨hfirst, hrest⟩ := hrun
    constructor
    · rintro ⟨hp, hps⟩
      exact ⟨(hstep s a hs hfirst).mp hp, (ih (hkeep s a hs hfirst hp) hrest).mp hps⟩
    · rintro ⟨hq, hqs⟩
      have hp := (hstep s a hs hfirst).mpr hq
      exact ⟨hp, (ih (hkeep s a hs hfirst hp) hrest).mpr hqs⟩

/-- What no action of a run changes is the same after it. -/
theorem along_same {E P : S → A → Prop} {V : Type*} (view : S → V)
    (hstep : ∀ s a, E s a → P s a → view (next s a) = view s) {s : S} {actions : List A}
    (hrun : Along next E s actions) (hall : Along next P s actions) :
    view (actions.foldl next s) = view s := by
  induction actions generalizing s with
  | nil => rfl
  | cons a actions ih => exact (ih hrun.2 hall.2).trans (hstep s a hrun.1 hall.1)

end Actions

end Comp556
