import Comp556.Foundation.Walk
import Mathlib.Algebra.Order.BigOperators.Group.List
import Mathlib.Algebra.Order.Ring.Nat

/-!
# Dijkstra's algorithm with labels

A search starts from seeds, each at a distance of its own and with a label. It settles the nearest
vertex that is not settled yet and improves what lies behind its edges; an improved vertex takes
over the label.
-/

namespace Comp556

variable {V L : Type*}

/-- A tour to the first vertex of the list. It starts at a seed, whose label it keeps, and goes on
along edges; the list holds its vertices from the last to the first. -/
inductive Tour (seed : V → L → Nat → Prop) (edge : V → V → Nat → Prop) : List V → L → Nat → Prop
  | seed {v : V} {l : L} {n : Nat} : seed v l n → Tour seed edge [v] l n
  | step {u v : V} {path : List V} {l : L} {n w : Nat} : Tour seed edge (u :: path) l n →
      edge u v w → Tour seed edge (v :: u :: path) l (n + w)

/-- Some tour with this label and this total weight leads to `v`. -/
def Reached (seed : V → L → Nat → Prop) (edge : V → V → Nat → Prop) (v : V) (l : L) (n : Nat) : Prop :=
  ∃ path, Tour seed edge (v :: path) l n

theorem Reached.step {seed : V → L → Nat → Prop} {edge : V → V → Nat → Prop} {u v : V} {l : L} {n w : Nat}
    (h : Reached seed edge u l n) (hedge : edge u v w) : Reached seed edge v l (n + w) := by
  obtain ⟨path, htour⟩ := h
  exact ⟨u :: path, htour.step hedge⟩

theorem Reached.append {seed : V → L → Nat → Prop} {edge : V → V → Nat → Prop} {u v : V} {l : L}
    {n m : Nat} (h : Reached seed edge u l n) (hwalk : Walk edge u v m) : Reached seed edge v l (n + m) := by
  induction hwalk generalizing n with
  | nil v => exact h
  | cons hedge _ ih =>
    rw [← Nat.add_assoc]
    exact ih (h.step hedge)

/-- What holds at the seeds and passes along edges holds wherever a tour leads. -/
theorem Reached.rec_on {seed : V → L → Nat → Prop} {edge : V → V → Nat → Prop} {P : V → L → Nat → Prop}
    (hseed : ∀ v l n, seed v l n → P v l n)
    (hstep : ∀ u v l n w, Reached seed edge u l n → P u l n → edge u v w → P v l (n + w))
    {v : V} {l : L} {n : Nat} (h : Reached seed edge v l n) : P v l n := by
  obtain ⟨path, htour⟩ := h
  generalize hlist : v :: path = list at htour
  induction htour generalizing v path with
  | seed hs =>
    obtain ⟨rfl, -⟩ := List.cons.inj hlist
    exact hseed _ _ _ hs
  | step htour hedge ih =>
    obtain ⟨rfl, -⟩ := List.cons.inj hlist
    exact hstep _ _ _ _ _ ⟨_, htour⟩ (ih _ rfl) hedge

theorem sum_map_add_le {A : Type*} {f g : A → Nat} {l : List A} {x : A} {c : Nat} (hx : x ∈ l)
    (h : ∀ y ∈ l, f y ≤ g y) (hc : f x + c ≤ g x) : (l.map f).sum + c ≤ (l.map g).sum := by
  obtain ⟨before, after, rfl⟩ := List.append_of_mem hx
  have hbefore := List.sum_le_sum fun y hy => h y (List.mem_append_left _ hy)
  have hafter := List.sum_le_sum fun y hy => h y (List.mem_append_right before (List.mem_cons_of_mem x hy))
  simp only [List.map_append, List.map_cons, List.sum_append, List.sum_cons]
  omega

section Total

variable {E : Type*} [DecidableEq V] (items : List E) (weight : E → Nat) (ends : E → List V) (base : List V)

/-- Each seed and each edge is an item of the list, at an end of which it arrives, and whose other
ends it starts from. -/
structure Itemised (seed : V → L → Nat → Prop) (edge : V → V → Nat → Prop) : Prop where
  seed : ∀ v l n, seed v l n → v ∉ base ∧
    ∃ e ∈ items, weight e = n ∧ v ∈ ends e ∧ ∀ x ∈ ends e, x = v ∨ x ∈ base
  edge : ∀ u v w, edge u v w → v ≠ u → v ∉ base ∧
    ∃ e ∈ items, weight e = w ∧ v ∈ ends e ∧ ∀ x ∈ ends e, x = v ∨ x = u

/-- The weight of the items all of whose ends are among the given vertices. -/
private def within (path : List V) : Nat :=
  (items.map fun e => if ∀ x ∈ ends e, x ∈ path ∨ x ∈ base then weight e else 0).sum

variable {items weight ends base} {seed : V → L → Nat → Prop} {edge : V → V → Nat → Prop}

private theorem within_cons {e : E} (he : e ∈ items) {v : V} {path : List V} (hv : v ∈ ends e)
    (hpath : v ∉ path) (hbase : v ∉ base) (hends : ∀ x ∈ ends e, x ∈ v :: path ∨ x ∈ base) :
    within items weight ends base path + weight e ≤ within items weight ends base (v :: path) := by
  refine sum_map_add_le he (fun e' _ => ?_) ?_
  · split
    · rename_i hin
      rw [if_pos fun x hx => (hin x hx).imp_left (List.mem_cons_of_mem v)]
    · exact Nat.zero_le _
  · rw [if_pos hends, if_neg fun hin => (hin v hv).elim hpath hbase, Nat.zero_add]

/-- A tour that visits no vertex twice weighs no more than all items together. -/
theorem Itemised.tour_le (h : Itemised items weight ends base seed edge) {path : List V} {l : L} {n : Nat}
    (htour : Tour seed edge path l n) (hnodup : path.Nodup) : n ≤ (items.map weight).sum := by
  have hwithin : n ≤ within items weight ends base path := by
    induction htour with
    | @seed v l n hseed =>
      obtain ⟨hbase, e, he, rfl, hv, hends⟩ := h.seed v l n hseed
      refine (Nat.le_add_left _ _).trans (within_cons he hv List.not_mem_nil hbase fun x hx => ?_)
      exact (hends x hx).imp_left fun hxv => by simp [hxv]
    | @step u v path l n w _ hedge ih =>
      obtain ⟨hfresh, hrest⟩ := List.nodup_cons.mp hnodup
      obtain ⟨hbase, e, he, rfl, hv, hends⟩ := h.edge u v w hedge fun heq => hfresh (by simp [heq])
      refine (Nat.add_le_add_right (ih hrest) _).trans (within_cons he hv hfresh hbase fun x hx => ?_)
      rcases hends x hx with rfl | rfl <;> simp
  refine hwithin.trans (List.sum_le_sum fun e _ => ?_)
  split
  · exact Nat.le_refl _
  · exact Nat.zero_le _

end Total

/-- What a search has recorded about each vertex. -/
@[ext]
structure Frontier (V L : Type*) where
  dist : V → Option Nat
  label : V → Option L
  done : V → Prop

namespace Frontier

/-- The way to `v` over an edge of weight `w` is shorter than the one on record. -/
def Improves (st : Frontier V L) (du : Nat) (v : V) (w : Nat) : Prop :=
  ∀ d, st.dist v = some d → du + w < d

/-- `u`, at distance `du`, is the nearest vertex that is not settled. It is settled, and what it
improves takes over its distance and label. -/
structure Settles (edge : V → V → Nat → Prop) (st : Frontier V L) (u : V) (du : Nat)
    (st' : Frontier V L) : Prop where
  fresh : ¬ st.done u
  dist : st.dist u = some du
  nearest : ∀ v d, ¬ st.done v → st.dist v = some d → du ≤ d
  done : ∀ v, st'.done v ↔ st.done v ∨ v = u
  relaxes : ∀ v,
    (st'.dist v = st.dist v ∧ st'.label v = st.label v ∧
      ∀ w, edge u v w → ∃ d, st.dist v = some d ∧ d ≤ du + w) ∨
    ∃ w, edge u v w ∧ (∀ w', edge u v w' → w ≤ w') ∧ st.Improves du v w ∧
      st'.dist v = some (du + w) ∧ st'.label v = st.label u

/-- Every record comes from a tour through settled vertices, no settled vertex is farther than one
that is not, and the edges of settled vertices have been used. -/
structure Inv (seed : V → L → Nat → Prop) (edge : V → V → Nat → Prop) (st : Frontier V L) : Prop where
  seeded : ∀ v l n, seed v l n → ∃ d, st.dist v = some d ∧ d ≤ n
  toured : ∀ v d, st.dist v = some d → ∃ l path, st.label v = some l ∧
    Tour seed edge (v :: path) l d ∧ (v :: path).Nodup ∧ ∀ x ∈ path, st.done x
  known : ∀ v, st.done v → (st.dist v).isSome
  nearest : ∀ u v du dv, st.done u → ¬ st.done v → st.dist u = some du → st.dist v = some dv → du ≤ dv
  relaxed : ∀ u v w du, st.done u → st.dist u = some du → edge u v w →
    ∃ d, st.dist v = some d ∧ d ≤ du + w

variable {seed : V → L → Nat → Prop} {edge : V → V → Nat → Prop} {st st' : Frontier V L} {u : V} {du : Nat}

private theorem Inv.done_le (h : Inv seed edge st) (hfresh : ¬ st.done u) (hdist : st.dist u = some du) {v : V}
    (hv : st.done v) : ∃ d, st.dist v = some d ∧ d ≤ du := by
  obtain ⟨d, hd⟩ := Option.isSome_iff_exists.mp (h.known v hv)
  exact ⟨d, hd, h.nearest v u d du hv hfresh hd hdist⟩

private theorem Inv.not_done_of_improves (h : Inv seed edge st) (hfresh : ¬ st.done u)
    (hdist : st.dist u = some du) {v : V} {w : Nat} (himproves : st.Improves du v w) :
    ¬ st.done v ∧ v ≠ u := by
  constructor
  · intro hv
    obtain ⟨d, hd, hle⟩ := h.done_le hfresh hdist hv
    have := himproves d hd
    omega
  · intro heq
    subst heq
    have := himproves du hdist
    omega

/-- An improvement belongs to a tour that visits no vertex twice. -/
theorem Inv.improved_tour (h : Inv seed edge st) (hfresh : ¬ st.done u) (hdist : st.dist u = some du)
    {v : V} {w : Nat} (hedge : edge u v w) (himproves : st.Improves du v w) :
    ∃ l path, st.label u = some l ∧ Tour seed edge (v :: u :: path) l (du + w) ∧
      (v :: u :: path).Nodup ∧ ∀ x ∈ path, st.done x := by
  obtain ⟨hv, hne⟩ := h.not_done_of_improves hfresh hdist himproves
  obtain ⟨l, path, hlabel, htour, hnodup, hdone⟩ := h.toured u du hdist
  refine ⟨l, path, hlabel, htour.step hedge, List.nodup_cons.mpr ⟨fun hmem => ?_, hnodup⟩, hdone⟩
  rcases List.mem_cons.mp hmem with heq | hmem
  · exact hne heq
  · exact hv (hdone v hmem)

private theorem Settles.dist_le (hstep : Settles edge st u du st') {v : V} {d : Nat} (hd : st.dist v = some d) :
    ∃ d', st'.dist v = some d' ∧ d' ≤ d := by
  rcases hstep.relaxes v with ⟨hkept, -, -⟩ | ⟨w, -, -, himproves, hnew, -⟩
  · exact ⟨d, hkept.trans hd, Nat.le_refl d⟩
  · exact ⟨du + w, hnew, (himproves d hd).le⟩

private theorem Settles.dist_of_done (hstep : Settles edge st u du st') (h : Inv seed edge st) {v : V}
    (hv : st'.done v) : st'.dist v = st.dist v := by
  rcases hstep.relaxes v with ⟨hkept, -, -⟩ | ⟨w, -, -, himproves, -, -⟩
  · exact hkept
  · obtain ⟨hfresh, hne⟩ := h.not_done_of_improves hstep.fresh hstep.dist himproves
    exact absurd ((hstep.done v).mp hv) (not_or.mpr ⟨hfresh, hne⟩)

/-- One vertex more. -/
theorem Inv.settle (h : Inv seed edge st) (hstep : Settles edge st u du st') : Inv seed edge st' where
  seeded v l n hseed := by
    obtain ⟨d, hd, hle⟩ := h.seeded v l n hseed
    obtain ⟨d', hd', hle'⟩ := hstep.dist_le hd
    exact ⟨d', hd', hle'.trans hle⟩
  toured v d hd := by
    have hgrow (x : V) (hx : st.done x) : st'.done x := (hstep.done x).mpr (.inl hx)
    rcases hstep.relaxes v with ⟨hkept, hlabel, -⟩ | ⟨w, hedge, -, himproves, hnew, hlabel⟩
    · obtain ⟨l, path, hl, htour, hnodup, hdone⟩ := h.toured v d (hkept ▸ hd)
      exact ⟨l, path, hlabel.trans hl, htour, hnodup, fun x hx => hgrow x (hdone x hx)⟩
    · obtain ⟨l, path, hl, htour, hnodup, hdone⟩ :=
        h.improved_tour hstep.fresh hstep.dist hedge himproves
      obtain rfl := Option.some.inj (hnew.symm.trans hd)
      refine ⟨l, u :: path, hlabel.trans hl, htour, hnodup, fun x hx => ?_⟩
      rcases List.mem_cons.mp hx with rfl | hx
      · exact (hstep.done x).mpr (.inr rfl)
      · exact hgrow x (hdone x hx)
  known v hv := by
    rw [hstep.dist_of_done h hv]
    rcases (hstep.done v).mp hv with hv | rfl
    · exact h.known v hv
    · simp [hstep.dist]
  nearest x v dx dv hx hv hdx hdv := by
    -- what was settled is no farther than `u`, and what is left no nearer
    have hle : dx ≤ du := by
      rw [hstep.dist_of_done h hx] at hdx
      rcases (hstep.done x).mp hx with hx | rfl
      · exact h.nearest x u dx du hx hstep.fresh hdx hstep.dist
      · exact (Option.some.inj (hdx.symm.trans hstep.dist)).le
    rcases hstep.relaxes v with ⟨hkept, -, -⟩ | ⟨w, -, -, -, hnew, -⟩
    · have hfresh : ¬ st.done v := fun hdone => hv ((hstep.done v).mpr (.inl hdone))
      exact hle.trans (hstep.nearest v dv hfresh (hkept ▸ hdv))
    · obtain rfl := Option.some.inj (hnew.symm.trans hdv)
      omega
  relaxed x v w dx hx hdx hedge := by
    rw [hstep.dist_of_done h hx] at hdx
    rcases (hstep.done x).mp hx with hx | rfl
    · obtain ⟨d, hd, hle⟩ := h.relaxed x v w dx hx hdx hedge
      obtain ⟨d', hd', hle'⟩ := hstep.dist_le hd
      exact ⟨d', hd', hle'.trans hle⟩
    · obtain rfl := Option.some.inj (hdx.symm.trans hstep.dist)
      rcases hstep.relaxes v with ⟨hkept, -, hall⟩ | ⟨w', -, hleast, -, hnew, -⟩
      · obtain ⟨d, hd, hle⟩ := hall w hedge
        exact ⟨d, hkept.trans hd, hle⟩
      · exact ⟨dx + w', hnew, Nat.add_le_add_left (hleast w hedge) dx⟩

/-- The search is over when everything on record is settled: no tour is shorter. -/
theorem Inv.least (h : Inv seed edge st) (hover : ∀ v, (st.dist v).isSome → st.done v) {v : V} {l : L}
    {n : Nat} (hreached : Reached seed edge v l n) : ∃ d, st.dist v = some d ∧ d ≤ n := by
  apply hreached.rec_on (P := fun v _ n => ∃ d, st.dist v = some d ∧ d ≤ n) h.seeded
  rintro u v l n w - ⟨d, hd, hle⟩ hedge
  obtain ⟨d', hd', hle'⟩ := h.relaxed u v w d (hover u (by simp [hd])) hd hedge
  exact ⟨d', hd', by omega⟩

/-- No tour to a vertex that is not on record is shorter than the way to the nearest one that is. -/
theorem Inv.le_of_unknown (h : Inv seed edge st)
    (hnearest : ∀ v d, ¬ st.done v → st.dist v = some d → du ≤ d) {v : V} (hv : st.dist v = none) {l : L}
    {n : Nat} (hreached : Reached seed edge v l n) : du ≤ n := by
  have hfar (v : V) (d m : Nat) (hd : st.dist v = some d) (hle : d ≤ m) :
      (∃ d, st.done v ∧ st.dist v = some d ∧ d ≤ m) ∨ du ≤ m := by
    by_cases hdone : st.done v
    · exact .inl ⟨d, hdone, hd, hle⟩
    · exact .inr ((hnearest v d hdone hd).trans hle)
  have hall := hreached.rec_on (P := fun v _ m => (∃ d, st.done v ∧ st.dist v = some d ∧ d ≤ m) ∨ du ≤ m) (by
    intro v l m hseed
    obtain ⟨d, hd, hle⟩ := h.seeded v l m hseed
    exact hfar v d m hd hle) (by
    rintro u v l m w - (⟨d, hdone, hd, hle⟩ | hle) hedge
    · obtain ⟨d', hd', hle'⟩ := h.relaxed u v w d hdone hd hedge
      exact hfar v d' (m + w) hd' (by omega)
    · exact .inr (hle.trans (Nat.le_add_right m w)))
  rcases hall with ⟨d, -, hd, -⟩ | hle
  · rw [hv] at hd
    cases hd
  · exact hle

section Turns

variable (weight : V → V → Option Nat)

def improves (st : Frontier V L) (du : Nat) (v : V) (w : Nat) : Bool :=
  match st.dist v with
  | none => true
  | some d => du + w < d

theorem improves_iff {v : V} {w : Nat} : st.improves du v w = true ↔ st.Improves du v w := by
  unfold improves Improves
  cases st.dist v with
  | none => simp
  | some d => simp

/-- `u`, at distance `du`, is settled. -/
def settle (st : Frontier V L) (u : V) (du : Nat) : Frontier V L where
  dist v :=
    match weight u v with
    | none => st.dist v
    | some w => if st.improves du v w then some (du + w) else st.dist v
  label v :=
    match weight u v with
    | none => st.label v
    | some w => if st.improves du v w then st.label u else st.label v
  done v := st.done v ∨ v = u

/-- Of the nearest vertices that are not settled the first one is. -/
inductive Turn (before : V → V → Prop) : Frontier V L → Frontier V L → Prop
  | settle {st : Frontier V L} {u : V} {du : Nat} (hfresh : ¬ st.done u) (hdist : st.dist u = some du)
      (hfirst : ∀ v d, ¬ st.done v → st.dist v = some d → du < d ∨ du = d ∧ before u v) :
      Turn before st (st.settle weight u du)

variable {weight}

/-- With at most one edge between two vertices there is one way to settle a vertex. -/
theorem Settles.eq_settle (hstep : Settles edge st u du st')
    (hweight : ∀ v w, edge u v w ↔ weight u v = some w) : st' = st.settle weight u du := by
  have hrecord (v : V) : st'.dist v = (st.settle weight u du).dist v ∧
      st'.label v = (st.settle weight u du).label v := by
    simp only [settle]
    rcases hstep.relaxes v with ⟨hdist, hlabel, hall⟩ | ⟨w, hedge, -, himproves, hdist, hlabel⟩
    · cases hw : weight u v with
      | none => exact ⟨hdist, hlabel⟩
      | some w =>
        have hnot : ¬ st.improves du v w = true := by
          rw [improves_iff]
          intro himproves
          obtain ⟨d, hd, hle⟩ := hall w ((hweight v w).mpr hw)
          have := himproves d hd
          omega
        simp only [if_neg hnot]
        exact ⟨hdist, hlabel⟩
    · rw [(hweight v w).mp hedge]
      simp only [if_pos (improves_iff.mpr himproves)]
      exact ⟨hdist, hlabel⟩
  apply Frontier.ext
  · exact funext fun v => (hrecord v).1
  · exact funext fun v => (hrecord v).2
  · exact funext fun v => propext (hstep.done v)

end Turns

end Frontier

end Comp556
