import Comp556.Foundation.Dijkstra
import Comp556.Routing.LsPacket
import Comp556.Routing.LsSearch

/-!
# The forwarding table holds shortest paths

The loop of `update_forwarding_table` is Dijkstra's algorithm: seeded with the links of the router,
labelled with next hops, and over the edges that do not touch the router itself.
-/

namespace Comp556.Ls

/-- The link over which a path to a neighbour starts; its label is the neighbour. -/
def LinkSeed (r : Router) (v first : UInt16) (n : Nat) : Prop :=
  first = v ∧ v ≠ r.routerId ∧ ∃ link, r.neighborTable.get? v = some link ∧ link.cost.toNat = n

/-- An edge on which a path goes on without returning to the router. -/
def Onward (r : Router) (a b : UInt16) (w : Nat) : Prop :=
  a ≠ r.routerId ∧ b ≠ r.routerId ∧ ∃ edge, edgeAt r.graph a b = some edge ∧ edge.cost.toNat = w

/-- A path of cost `n` to `d`: a link of `neighbor_table` to `first`, then edges of the graph, never
back to the router. -/
def PathOver (r : Router) (d first : UInt16) (n : Nat) : Prop := Reached (LinkSeed r) (Onward r) d first n

def Fits (r : Router) : Prop :=
  ∀ path first n, Tour (LinkSeed r) (Onward r) path first n → path.Nodup → n < 65536

variable {r : Router} {s : Search}

def frontier (home : UInt16) (s : Search) : Frontier UInt16 UInt16 where
  dist v := if v = home then none else (s.distance.get? v).map UInt16.toNat
  label v := if v = home then none else s.nextHop.get? v
  done v := v ≠ home ∧ s.visited.getD v false = true

theorem frontier_dist {home v : UInt16} (hv : v ≠ home) :
    (frontier home s).dist v = (s.distance.get? v).map UInt16.toNat := if_neg hv

theorem frontier_dist_of_get? {home v d : UInt16} (hv : v ≠ home) (hd : s.distance.get? v = some d) :
    (frontier home s).dist v = some d.toNat := by
  rw [frontier_dist hv, hd]
  rfl

theorem get?_of_frontier_dist {home v : UInt16} {n : Nat} (h : (frontier home s).dist v = some n) :
    v ≠ home ∧ ∃ d, s.distance.get? v = some d ∧ d.toNat = n := by
  have hv : v ≠ home := by
    intro heq
    subst heq
    simp [frontier] at h
  rw [frontier_dist hv] at h
  exact ⟨hv, Option.map_eq_some_iff.mp h⟩

theorem frontier_label {home v : UInt16} (hv : v ≠ home) :
    (frontier home s).label v = s.nextHop.get? v := if_neg hv

/-- The search is a run of Dijkstra's algorithm. The queue holds the distance of every router that
has not been visited, and nothing below a distance. -/
structure Shortest (r : Router) (s : Search) : Prop where
  queued : Queued s
  home_visited : s.visited.getD r.routerId false = true
  edges : ∀ a b, edgeAt s.graph a b = edgeAt r.graph a b
  inv : (frontier r.routerId s).Inv (LinkSeed r) (Onward r)
  latest : ∀ v d, v ≠ r.routerId → s.visited.getD v false = false → s.distance.get? v = some d →
    (d, v) ∈ s.minq
  stale : ∀ v dis, v ≠ r.routerId → (dis, v) ∈ s.minq → ∃ d, s.distance.get? v = some d ∧ d ≤ dis

private theorem mem_minq_iff (s : Search) (v dis : UInt16) : (dis, v) ∈ s.minq ↔ 0 < (seen s v).2.2 dis :=
  List.count_pos_iff.symm

private theorem Queued.head_le {p q : UInt16 × UInt16} {minq : List (UInt16 × UInt16)} (hq : Queued s)
    (hminq : s.minq = p :: minq) (hmem : q ∈ s.minq) : p.1 ≤ q.1 := by
  have hle : disDestLe p q := by
    rcases List.mem_cons.mp (hminq ▸ hmem) with rfl | hmem
    · exact (disDestLe_iff q q).mpr (by omega)
    · exact List.rel_of_pairwise_cons (hminq ▸ hq.sorted) hmem
  rw [disDestLe_iff] at hle
  rw [UInt16.le_iff_toNat_le]
  omega

theorem Shortest.front (h : Shortest r s) {p : UInt16 × UInt16} {minq : List (UInt16 × UInt16)}
    (hminq : s.minq = p :: minq) (hnew : s.visited.getD p.2 false = false) :
    p.2 ≠ r.routerId ∧ s.distance.get? p.2 = some p.1 ∧
      ∀ v d, v ≠ r.routerId → s.visited.getD v false = false → s.distance.get? v = some d → p.1 ≤ d := by
  have hhome : p.2 ≠ r.routerId := by
    intro heq
    rw [heq, h.home_visited] at hnew
    cases hnew
  have hle (v d : UInt16) (hv : v ≠ r.routerId) (hfresh : s.visited.getD v false = false)
      (hd : s.distance.get? v = some d) : p.1 ≤ d :=
    h.queued.head_le hminq (h.latest v d hv hfresh hd)
  obtain ⟨du, hdu, hstale⟩ := h.stale p.2 p.1 hhome (by rw [hminq]; exact List.mem_cons_self ..)
  have heq : du = p.1 := UInt16.le_antisymm hstale (hle p.2 du hhome hnew hdu)
  exact ⟨hhome, heq ▸ hdu, hle⟩

/-- What a turn does to the record of another router `v`: nothing, if no edge shortens the way to it,
or else it is queued again at its new distance. -/
theorem Shortest.visit_cases (h : Shortest r s) (env : Env) {p : UInt16 × UInt16}
    {minq : List (UInt16 × UInt16)} (hminq : s.minq = p :: minq)
    (hnew : s.visited.getD p.2 false = false) (v : UInt16) :
    (seen (visit env s p.2 minq) v = seen (pop s minq) v ∧
      ∀ edge, edgeAt r.graph p.2 v = some edge → improves (s.distance.get? v) p.1 edge.cost = false) ∨
    ∃ edge, edgeAt r.graph p.2 v = some edge ∧ improves (s.distance.get? v) p.1 edge.cost = true ∧
      seen (visit env s p.2 minq) v = (some (p.1 + edge.cost), some (s.nextHop.getD p.2 0),
        fun dis => (seen (pop s minq) v).2.2 dis + if p.1 + edge.cost = dis then 1 else 0) := by
  obtain ⟨-, hdist, -⟩ := h.front hminq hnew
  obtain ⟨du, hdu, -, heffect, -⟩ := visit_effect env h.queued hminq hnew
  obtain rfl := Option.some.inj (hdist.symm.trans hdu)
  have hrecord := heffect v
  rw [h.edges] at hrecord
  cases hedge : edgeAt r.graph p.2 v with
  | none =>
    rw [hedge] at hrecord
    exact .inl ⟨hrecord, by simp⟩
  | some edge =>
    rw [hedge, Option.map_some, Option.getD_some, relaxed] at hrecord
    cases himproves : improves (s.distance.get? v) p.1 edge.cost with
    | true => exact .inr ⟨edge, rfl, himproves, hrecord.trans (if_pos himproves)⟩
    | false =>
      refine .inl ⟨hrecord.trans (if_neg ?_), fun edge' hedge' => ?_⟩
      · change ¬ improves (s.distance.get? v) p.1 edge.cost = true
        rw [himproves]
        decide
      · obtain rfl := Option.some.inj hedge'
        exact himproves

theorem improves_iff {home v u w : UInt16} (hv : v ≠ home) :
    improves (s.distance.get? v) u w = true ↔ (frontier home s).Improves u.toNat v w.toNat := by
  rw [Frontier.Improves, frontier_dist hv]
  cases s.distance.get? v with
  | none => simp [improves]
  | some d => simp [improves]

/-- What a turn at `p` enters fits in 16 bits. -/
def TurnFits (r : Router) (s : Search) (p : UInt16 × UInt16) : Prop :=
  ∀ v edge, v ≠ r.routerId → edgeAt r.graph p.2 v = some edge →
    improves (s.distance.get? v) p.1 edge.cost = true → p.1.toNat + edge.cost.toNat < 65536

private theorem Shortest.turnFits (h : Shortest r s) (hfits : Fits r) {p : UInt16 × UInt16}
    {minq : List (UInt16 × UInt16)} (hminq : s.minq = p :: minq)
    (hnew : s.visited.getD p.2 false = false) : TurnFits r s p := by
  intro v edge hv hedge himproves
  obtain ⟨hhome, hdist, -⟩ := h.front hminq hnew
  have hfresh : ¬ (frontier r.routerId s).done p.2 := fun hdone => by simp [hdone.2] at hnew
  obtain ⟨l, path, -, htour, hnodup, -⟩ := h.inv.improved_tour hfresh (frontier_dist_of_get? hhome hdist)
    ⟨hhome, hv, edge, hedge, rfl⟩ ((improves_iff hv).mp himproves)
  exact hfits _ _ _ htour hnodup

private theorem TurnFits.sum_toNat {p : UInt16 × UInt16} (h : TurnFits r s p) {v : UInt16} (hv : v ≠ r.routerId)
    {edge : Edge} (hedge : edgeAt r.graph p.2 v = some edge)
    (himproves : improves (s.distance.get? v) p.1 edge.cost = true) :
    (p.1 + edge.cost).toNat = p.1.toNat + edge.cost.toNat := by
  rw [UInt16.toNat_add, Nat.mod_eq_of_lt (h v edge hv hedge himproves)]

private theorem Shortest.front_label (h : Shortest r s) {p : UInt16 × UInt16} {minq : List (UInt16 × UInt16)}
    (hminq : s.minq = p :: minq) (hnew : s.visited.getD p.2 false = false) :
    (frontier r.routerId s).label p.2 = some (s.nextHop.getD p.2 0) := by
  obtain ⟨hhome, hdist, -⟩ := h.front hminq hnew
  obtain ⟨l, -, hl, -⟩ := h.inv.toured p.2 p.1.toNat (frontier_dist_of_get? hhome hdist)
  rw [hl]
  rw [frontier_label hhome] at hl
  rw [Table.getD_of_get? 0 hl]

private theorem dist_le_of_not_improves {home v u w : UInt16} (hv : v ≠ home)
    (h : improves (s.distance.get? v) u w = false) :
    ∃ d, (frontier home s).dist v = some d ∧ d ≤ u.toNat + w.toNat := by
  cases hd : s.distance.get? v with
  | none =>
    rw [hd] at h
    cases h
  | some d =>
    rw [hd, improves] at h
    exact ⟨d.toNat, frontier_dist_of_get? hv hd, by simpa using h⟩

theorem Shortest.relaxes (h : Shortest r s) (env : Env) {p : UInt16 × UInt16}
    {minq : List (UInt16 × UInt16)} (hminq : s.minq = p :: minq)
    (hnew : s.visited.getD p.2 false = false) (hfits : TurnFits r s p) (v : UInt16) :
    ((frontier r.routerId (visit env s p.2 minq)).dist v = (frontier r.routerId s).dist v ∧
      (frontier r.routerId (visit env s p.2 minq)).label v = (frontier r.routerId s).label v ∧
      ∀ w, Onward r p.2 v w → ∃ d, (frontier r.routerId s).dist v = some d ∧ d ≤ p.1.toNat + w) ∨
    ∃ w, Onward r p.2 v w ∧ (∀ w', Onward r p.2 v w' → w ≤ w') ∧
      (frontier r.routerId s).Improves p.1.toNat v w ∧
      (frontier r.routerId (visit env s p.2 minq)).dist v = some (p.1.toNat + w) ∧
      (frontier r.routerId (visit env s p.2 minq)).label v = (frontier r.routerId s).label p.2 := by
  obtain ⟨hhome, -, -⟩ := h.front hminq hnew
  by_cases hv : v = r.routerId
  · exact .inl ⟨by simp [frontier, hv], by simp [frontier, hv], fun w hedge => absurd hv hedge.2.1⟩
  rcases h.visit_cases env hminq hnew v with ⟨hkept, hall⟩ | ⟨edge, hedge, himproves, hrecord⟩
  · simp only [seen, pop, Prod.mk.injEq] at hkept
    refine .inl ⟨?_, ?_, ?_⟩
    · rw [frontier_dist hv, frontier_dist hv, hkept.1]
    · rw [frontier_label hv, frontier_label hv, hkept.2.1]
    · rintro _ ⟨-, -, edge, hedge, rfl⟩
      exact dist_le_of_not_improves hv (hall edge hedge)
  · simp only [seen, Prod.mk.injEq] at hrecord
    refine .inr ⟨edge.cost.toNat, ⟨hhome, hv, edge, hedge, rfl⟩, ?_, (improves_iff hv).mp himproves, ?_, ?_⟩
    · rintro _ ⟨-, -, edge', hedge', rfl⟩
      rw [Option.some.inj (hedge.symm.trans hedge')]
    · rw [frontier_dist_of_get? hv hrecord.1, hfits.sum_toNat hv hedge himproves]
    · rw [frontier_label hv, hrecord.2.1, h.front_label hminq hnew]

theorem Shortest.settles (h : Shortest r s) (env : Env) {p : UInt16 × UInt16}
    {minq : List (UInt16 × UInt16)} (hminq : s.minq = p :: minq)
    (hnew : s.visited.getD p.2 false = false) (hfits : TurnFits r s p) :
    (frontier r.routerId s).Settles (Onward r) p.2 p.1.toNat
      (frontier r.routerId (visit env s p.2 minq)) := by
  obtain ⟨hhome, hdist, hnearest⟩ := h.front hminq hnew
  obtain ⟨-, -, -, -, hvisited⟩ := visit_effect env h.queued hminq hnew
  constructor
  case fresh =>
    intro hdone
    rw [hdone.2] at hnew
    cases hnew
  case dist => exact frontier_dist_of_get? hhome hdist
  case nearest =>
    intro v d hfresh hd
    obtain ⟨hv, dv, hdv, rfl⟩ := get?_of_frontier_dist hd
    have hunvisited : s.visited.getD v false = false := Bool.eq_false_iff.mpr fun hvis => hfresh ⟨hv, hvis⟩
    exact UInt16.le_iff_toNat_le.mp (hnearest v dv hv hunvisited hdv)
  case done =>
    intro v
    simp only [frontier, hvisited]
    by_cases hv : v = p.2
    · simp [hv, hhome]
    · simp [hv]
  case relaxes => exact h.relaxes env hminq hnew hfits

private theorem mem_pop_iff {p : UInt16 × UInt16} {minq : List (UInt16 × UInt16)}
    (hminq : s.minq = p :: minq) {v dis : UInt16} (hv : v ≠ p.2) :
    (dis, v) ∈ minq ↔ (dis, v) ∈ s.minq := by
  rw [hminq, List.mem_cons]
  exact (or_iff_right fun heq => hv (congrArg Prod.snd heq)).symm

private theorem Shortest.visit_latest (h : Shortest r s) (env : Env) {p : UInt16 × UInt16}
    {minq : List (UInt16 × UInt16)} (hminq : s.minq = p :: minq)
    (hnew : s.visited.getD p.2 false = false) {v d : UInt16} (hv : v ≠ r.routerId)
    (hfresh : (visit env s p.2 minq).visited.getD v false = false)
    (hd : (visit env s p.2 minq).distance.get? v = some d) : (d, v) ∈ (visit env s p.2 minq).minq := by
  obtain ⟨-, -, -, -, hvisited⟩ := visit_effect env h.queued hminq hnew
  rw [hvisited] at hfresh
  have hne : v ≠ p.2 := by
    intro heq
    subst heq
    simp at hfresh
  rw [if_neg hne] at hfresh
  rw [mem_minq_iff]
  rcases h.visit_cases env hminq hnew v with ⟨hkept, -⟩ | ⟨edge, -, -, hrecord⟩
  · have hold : s.distance.get? v = some d := (congrArg Prod.fst hkept).symm.trans hd
    rw [hkept, ← mem_minq_iff]
    exact (mem_pop_iff hminq hne).mpr (h.latest v d hv hfresh hold)
  · have hsum : p.1 + edge.cost = d := Option.some.inj ((congrArg Prod.fst hrecord).symm.trans hd)
    rw [hrecord]
    dsimp only
    rw [if_pos hsum]
    exact Nat.succ_pos _

private theorem Shortest.visit_stale (h : Shortest r s) (env : Env) {p : UInt16 × UInt16}
    {minq : List (UInt16 × UInt16)} (hminq : s.minq = p :: minq)
    (hnew : s.visited.getD p.2 false = false) (hfits : TurnFits r s p) {v dis : UInt16} (hv : v ≠ r.routerId)
    (hmem : (dis, v) ∈ (visit env s p.2 minq).minq) :
    ∃ d, (visit env s p.2 minq).distance.get? v = some d ∧ d ≤ dis := by
  rw [mem_minq_iff] at hmem
  have hold (hin : 0 < (seen (pop s minq) v).2.2 dis) : ∃ d, s.distance.get? v = some d ∧ d ≤ dis := by
    rw [← mem_minq_iff] at hin
    exact h.stale v dis hv (hminq ▸ List.mem_cons_of_mem p hin)
  rcases h.visit_cases env hminq hnew v with ⟨hkept, -⟩ | ⟨edge, hedge, himproves, hrecord⟩
  · rw [hkept] at hmem
    obtain ⟨d, hd, hle⟩ := hold hmem
    exact ⟨d, (congrArg Prod.fst hkept).trans hd, hle⟩
  · refine ⟨p.1 + edge.cost, congrArg Prod.fst hrecord, ?_⟩
    rw [hrecord] at hmem
    dsimp only at hmem
    by_cases hsum : p.1 + edge.cost = dis
    · exact hsum ▸ UInt16.le_refl _
    · rw [if_neg hsum] at hmem
      obtain ⟨d, hd, hle⟩ := hold hmem
      have hlt := (improves_iff hv).mp himproves d.toNat (frontier_dist_of_get? hv hd)
      have hwide := hfits.sum_toNat hv hedge himproves
      rw [UInt16.le_iff_toNat_le] at hle ⊢
      omega

theorem Shortest.visit (h : Shortest r s) (env : Env) {p : UInt16 × UInt16}
    {minq : List (UInt16 × UInt16)} (hminq : s.minq = p :: minq)
    (hfits : s.visited.getD p.2 false = false → TurnFits r s p) :
    Shortest r (visit env s p.2 minq) := by
  have hqueued := h.queued.visit env hminq
  cases hnew : s.visited.getD p.2 false with
  | true =>
    rw [visit_of_visited env minq hnew] at hqueued ⊢
    refine ⟨hqueued, h.home_visited, h.edges, h.inv, fun v d hv hfresh hd => ?_, fun v dis hv hmem => ?_⟩
    · have hne : v ≠ p.2 := by
        intro heq
        subst heq
        exact absurd (hnew.symm.trans hfresh) (by decide)
      exact (mem_pop_iff hminq hne).mpr (h.latest v d hv hfresh hd)
    · exact h.stale v dis hv (hminq ▸ List.mem_cons_of_mem p hmem)
  | false =>
    obtain ⟨hhome, -, -⟩ := h.front hminq hnew
    obtain ⟨-, -, -, -, hvisited⟩ := visit_effect env h.queued hminq hnew
    constructor
    case queued => exact hqueued
    case home_visited =>
      rw [hvisited, if_neg (Ne.symm hhome)]
      exact h.home_visited
    case edges =>
      intro a b
      rw [visit_edges, h.edges]
    case inv => exact h.inv.settle (h.settles env hminq hnew (hfits hnew))
    case latest => exact fun v d hv hfresh hd => h.visit_latest env hminq hnew hv hfresh hd
    case stale => exact fun v dis hv hmem => h.visit_stale env hminq hnew (hfits hnew) hv hmem

section Start

variable (env : Env)

private theorem initSearch_visited (v : UInt16) :
    (initSearch env r).visited.getD v false = decide (v = r.routerId) := by
  rw [(initSearch_effect env r).1.visited, startSearch, Table.getD_insert]
  by_cases hv : v = r.routerId
  · simp [hv]
  · simp [hv, Table.getD_eq]

theorem initSearch_not_done (v : UInt16) : ¬ (frontier r.routerId (initSearch env r)).done v := by
  rintro ⟨hv, hdone⟩
  simp [initSearch_visited, hv] at hdone

variable (hports : ∀ n link, r.neighborTable.get? n = some link → r.portTable.get? link.port = some n)
include hports

theorem initSearch_seen {v : UInt16} (hv : v ≠ r.routerId) : seen (initSearch env r) v =
    ((r.neighborTable.get? v).map fun link => (some link.cost, some v,
      fun dis => if link.cost = dis then 1 else 0)).getD (none, none, fun _ => 0) := by
  have hstart : seen (startSearch env r) v = (none, none, fun _ => 0) := by
    simp [seen, startSearch, Table.get?_insert, hv]
  rw [(initSearch_effect env r).2 v, hstart]
  cases hlink : r.neighborTable.get? v with
  | none => rfl
  | some link => simp [hopOf, Table.getD_of_get? 0 (hports v link hlink)]

private theorem initSearch_of_link {v : UInt16} (hv : v ≠ r.routerId) {link : Link}
    (hlink : r.neighborTable.get? v = some link) :
    (initSearch env r).distance.get? v = some link.cost ∧ (initSearch env r).nextHop.get? v = some v := by
  have hsame := initSearch_seen env hports hv
  rw [hlink] at hsame
  exact ⟨congrArg Prod.fst hsame, congrArg (fun record => record.2.1) hsame⟩

private theorem link_of_initSearch {v d : UInt16} (hv : v ≠ r.routerId)
    (hd : (initSearch env r).distance.get? v = some d) :
    ∃ link, r.neighborTable.get? v = some link ∧ link.cost = d := by
  have hsame := congrArg Prod.fst (initSearch_seen env hports hv)
  cases hlink : r.neighborTable.get? v with
  | none =>
    rw [hlink] at hsame
    exact absurd (hsame.symm.trans hd) (by simp)
  | some link =>
    rw [hlink] at hsame
    exact ⟨link, rfl, Option.some.inj (hsame.symm.trans hd)⟩

private theorem initSearch_inv : (frontier r.routerId (initSearch env r)).Inv (LinkSeed r) (Onward r) where
  seeded := by
    rintro _ v _ ⟨rfl, hv, link, hlink, rfl⟩
    have hdist := (initSearch_of_link env hports hv hlink).1
    exact ⟨link.cost.toNat, frontier_dist_of_get? hv hdist, Nat.le_refl _⟩
  toured v n hn := by
    obtain ⟨hv, d, hd, rfl⟩ := get?_of_frontier_dist hn
    obtain ⟨link, hlink, rfl⟩ := link_of_initSearch env hports hv hd
    have hhop := (initSearch_of_link env hports hv hlink).2
    exact ⟨v, [], (frontier_label hv).trans hhop, .seed ⟨rfl, hv, link, hlink, rfl⟩,
      List.nodup_singleton v, by simp⟩
  known v hv := absurd hv (initSearch_not_done env v)
  nearest u _ _ _ hu := absurd hu (initSearch_not_done env u)
  relaxed u _ _ _ hu := absurd hu (initSearch_not_done env u)

theorem Shortest.start : Shortest r (initSearch env r) where
  queued := (initSearch_effect env r).1.queued
  home_visited := by simp [initSearch_visited]
  edges a b := by rw [initSearch_graph]
  inv := initSearch_inv env hports
  latest v d hv _ hd := by
    obtain ⟨link, hlink, rfl⟩ := link_of_initSearch env hports hv hd
    rw [mem_minq_iff, initSearch_seen env hports hv, hlink]
    simp
  stale v dis hv hmem := by
    rw [mem_minq_iff, initSearch_seen env hports hv] at hmem
    cases hlink : r.neighborTable.get? v with
    | none => simp [hlink] at hmem
    | some link =>
      have hcost : link.cost = dis := by
        by_contra hne
        simp [hlink, hne] at hmem
      exact ⟨link.cost, (initSearch_of_link env hports hv hlink).1, hcost ▸ UInt16.le_refl _⟩

private theorem search_shortest (hfits : Fits r) :
    Shortest r (search env (searchFuel r) (initSearch env r)) := by
  have hstart := Shortest.start env hports
  exact search_induct env (P := Shortest r) (fun s p minq _ hminq h =>
    h.visit env hminq (h.turnFits hfits hminq))
    (searchFuel r) (initSearch env r) hstart.queued hstart

end Start

theorem Shortest.done_of_empty (h : Shortest r s) (hminq : s.minq = []) {v : UInt16}
    (hv : ((frontier r.routerId s).dist v).isSome) : (frontier r.routerId s).done v := by
  obtain ⟨n, hn⟩ := Option.isSome_iff_exists.mp hv
  obtain ⟨hself, d, hd, -⟩ := get?_of_frontier_dist hn
  refine ⟨hself, ?_⟩
  by_contra hfresh
  have hmem := h.latest v d hself (by simpa using hfresh) hd
  rw [hminq] at hmem
  cases hmem

private theorem record_of_route (env : Env) {d : UInt16} {route : Route}
    (h : (updateForwardingTable env r).routingTable.get? d = some route) :
    d ≠ r.routerId ∧ (search env (searchFuel r) (initSearch env r)).distance.get? d = some route.cost ∧
      route.nextHop = (search env (searchFuel r) (initSearch env r)).nextHop.getD d 0 := by
  change (collectRoutes env r (search env (searchFuel r) (initSearch env r))).get? d = some route at h
  rw [collectRoutes_get?] at h
  split at h
  · cases h
  · rename_i hd
    obtain ⟨dis, hdis, rfl⟩ := Option.map_eq_some_iff.mp h
    exact ⟨hd, hdis, rfl⟩

theorem Shortest.pathOver (env : Env) (h : Shortest r (search env (searchFuel r) (initSearch env r)))
    {d : UInt16} {route : Route} (hroute : (updateForwardingTable env r).routingTable.get? d = some route) :
    PathOver r d route.nextHop route.cost.toNat := by
  obtain ⟨hd, hdis, hhop⟩ := record_of_route env hroute
  obtain ⟨l, path, hlabel, htour, -⟩ := h.inv.toured d route.cost.toNat (frontier_dist_of_get? hd hdis)
  rw [frontier_label hd] at hlabel
  rw [hhop, Table.getD_of_get? 0 hlabel]
  exact ⟨path, htour⟩

/-- At the end a router is on record exactly if some path leads to it, at the least cost and with the first
router of a path of that cost. -/
theorem shortest_routes (env : Env) (hports : ∀ n link, r.neighborTable.get? n = some link →
    r.portTable.get? link.port = some n) (hfits : Fits r) (d : UInt16) :
    (((updateForwardingTable env r).routingTable.get? d).isSome ↔
      d ≠ r.routerId ∧ ∃ first n, PathOver r d first n) ∧
    ∀ route, (updateForwardingTable env r).routingTable.get? d = some route →
      PathOver r d route.nextHop route.cost.toNat ∧
        ∀ first n, PathOver r d first n → route.cost.toNat ≤ n := by
  have hend := search_shortest env hports hfits
  have hover := fun v => hend.done_of_empty (search_ends ..) (v := v)
  constructor
  · constructor
    · intro hsome
      obtain ⟨route, hroute⟩ := Option.isSome_iff_exists.mp hsome
      exact ⟨(record_of_route env hroute).1, _, _, hend.pathOver env hroute⟩
    · rintro ⟨hd, first, n, hpath⟩
      obtain ⟨dis, hdis, -⟩ := hend.inv.least hover hpath
      obtain ⟨-, dis', hdis', -⟩ := get?_of_frontier_dist hdis
      change ((collectRoutes env r (search env (searchFuel r) (initSearch env r))).get? d).isSome
      rw [collectRoutes_get?, if_neg hd, hdis']
      rfl
  · intro route hroute
    obtain ⟨hd, hdis, -⟩ := record_of_route env hroute
    refine ⟨hend.pathOver env hroute, fun first n hpath => ?_⟩
    obtain ⟨dis', hdis', hle⟩ := hend.inv.least hover hpath
    obtain rfl := Option.some.inj ((frontier_dist_of_get? hd hdis).symm.trans hdis')
    exact hle

def costItems (r : Router) : List (UInt16 × Nat) :=
  (r.neighborTable.entries.map fun e => (e.1, e.2.cost.toNat)) ++
    r.graph.entries.flatMap fun row => row.2.entries.map fun e => (e.1, e.2.cost.toNat)

def totalCost (r : Router) : Nat := ((costItems r).map Prod.snd).sum

theorem edgeAt_eq_some_iff (graph : Graph) (a b : UInt16) (edge : Edge) :
    edgeAt graph a b = some edge ↔ ∃ edges, (a, edges) ∈ graph.entries ∧ (b, edge) ∈ edges.entries := by
  simp only [edgeAt, Option.bind_eq_some_iff, Table.mem_entries_iff]

theorem fits_of_totalCost (h : totalCost r < 65536) : Fits r := by
  intro path first n htour hnodup
  have hitems : Itemised (costItems r) Prod.snd (fun e => [e.1]) [] (LinkSeed r) (Onward r) := by
    constructor
    · rintro _ v _ ⟨rfl, -, link, hlink, rfl⟩
      refine ⟨List.not_mem_nil, (v, link.cost.toNat), List.mem_append_left _ ?_, rfl, by simp, by simp⟩
      exact List.mem_map.mpr ⟨(v, link), (Table.mem_entries_iff ..).mpr hlink, rfl⟩
    · rintro u v _ ⟨-, -, edge, hedge, rfl⟩ -
      obtain ⟨edges, hrow, hentry⟩ := (edgeAt_eq_some_iff ..).mp hedge
      refine ⟨List.not_mem_nil, (v, edge.cost.toNat), List.mem_append_right _ ?_, rfl, by simp, by simp⟩
      exact List.mem_flatMap.mpr ⟨_, hrow, List.mem_map.mpr ⟨_, hentry, rfl⟩⟩
  exact (hitems.tour_le htour hnodup).trans_lt h

/-- Where every neighbour is on record at its port, and all costs together fit in 16 bits,
`update_forwarding_table` enters exactly the routers that a path leads to, each at the least cost of a path
and with the first router of such a path. -/
theorem forwardingTable_shortest (env : Env) (r : Router)
    (hports : ∀ n link, r.neighborTable.get? n = some link → r.portTable.get? link.port = some n)
    (htotal : totalCost r ≤ 65535) (d : UInt16) :
    (((updateForwardingTable env r).routingTable.get? d).isSome ↔
      d ≠ r.routerId ∧ ∃ first n, PathOver r d first n) ∧
    ∀ route, (updateForwardingTable env r).routingTable.get? d = some route →
      PathOver r d route.nextHop route.cost.toNat ∧
        ∀ first n, PathOver r d first n → route.cost.toNat ≤ n :=
  shortest_routes env hports (fits_of_totalCost (Nat.lt_succ_of_le htotal)) d

/-- Router 1 has links of cost 5 to router 2 and of cost 1 to router 3, which are 2 apart. -/
def triangleRouter : Router :=
  { neighborsRouter [(2, 5), (3, 1)] with
    portTable := (Table.empty.insert (.front _) 0 2).insert (.front _) 1 3
    graph := addEdge (sampleEnv 1) 3 2 2 .empty }

theorem triangle_detour : PathOver triangleRouter 2 3 3 ∧ ∀ first n, PathOver triangleRouter 2 first n →
    3 ≤ n := by
  have hports : ∀ e ∈ triangleRouter.neighborTable.entries,
      triangleRouter.portTable.get? e.2.port = some e.1 := by decide
  exact (forwardingTable_shortest (sampleEnv 1) triangleRouter
    (fun n link hlink => hports (n, link) ((Table.mem_entries_iff ..).mpr hlink)) (by decide) 2).2 ⟨3, 3⟩
    (by decide +kernel)

end Comp556.Ls
