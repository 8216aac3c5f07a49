import Comp556.Foundation.Run
import Comp556.Routing.LsShortest

/-!
# Costs beyond 16 bits in the forwarding table

`update_forwarding_table` compares sums as integers but stores them in 16 bits. Only the first sum for a
router can be too large, and once it has been cut down the router counts as near.
-/

namespace Comp556.Ls

variable {r : Router} {s : Search}

def onwardCost (r : Router) (a b : UInt16) : Option Nat :=
  if a = r.routerId ∨ b = r.routerId then none else (edgeAt r.graph a b).map fun edge => edge.cost.toNat

theorem onward_iff (a b : UInt16) (w : Nat) : Onward r a b w ↔ onwardCost r a b = some w := by
  unfold Onward onwardCost
  by_cases ha : a = r.routerId
  · simp [ha]
  · by_cases hb : b = r.routerId
    · simp [hb]
    · simp [ha, hb]

/-- Before the first turn the links are known. -/
def linkFrontier (r : Router) : Frontier UInt16 UInt16 where
  dist v := if v = r.routerId then none else (r.neighborTable.get? v).map fun link => link.cost.toNat
  label v := if v = r.routerId then none else (r.neighborTable.get? v).map fun _ => v
  done _ := False

/-- Dijkstra's algorithm with exact costs, which takes the routers at one distance in the order of their
ids, never enters a cost that is too large for 16 bits. -/
def ExactFits (r : Router) : Prop :=
  ∀ st, Relation.ReflTransGen (Frontier.Turn (onwardCost r) (· ≤ ·)) (linkFrontier r) st →
    ∀ v n, st.dist v = some n → n < 65536

/-- No route is cheaper than every path to its destination. -/
def NeverNearer (r : Router) (routes : RoutingTable) : Prop :=
  ∀ d route, routes.get? d = some route →
    route.cost = infinityCost ∨ ∃ first n, PathOver r d first n ∧ n ≤ route.cost.toNat

private theorem frontier_initSearch (env : Env)
    (hports : ∀ n link, r.neighborTable.get? n = some link → r.portTable.get? link.port = some n) :
    frontier r.routerId (initSearch env r) = linkFrontier r := by
  apply Frontier.ext
  · funext v
    by_cases hv : v = r.routerId
    · simp [frontier, linkFrontier, hv]
    · have hdist := congrArg Prod.fst (initSearch_seen env hports hv)
      simp only [seen] at hdist
      rw [frontier_dist hv, hdist]
      apply Eq.trans _ (if_neg hv).symm
      cases r.neighborTable.get? v with
      | none => rfl
      | some link => rfl
  · funext v
    by_cases hv : v = r.routerId
    · simp [frontier, linkFrontier, hv]
    · have hlabel := congrArg (fun record => record.2.1) (initSearch_seen env hports hv)
      simp only [seen] at hlabel
      rw [frontier_label hv, hlabel]
      apply Eq.trans _ (if_neg hv).symm
      cases r.neighborTable.get? v with
      | none => rfl
      | some link => rfl
  · exact funext fun v => propext (iff_of_false (initSearch_not_done env v) id)

theorem Shortest.first (h : Shortest r s) {p : UInt16 × UInt16} {minq : List (UInt16 × UInt16)}
    (hminq : s.minq = p :: minq) {v : UInt16} {d : Nat} (hfresh : ¬ (frontier r.routerId s).done v)
    (hd : (frontier r.routerId s).dist v = some d) : p.1.toNat < d ∨ p.1.toNat = d ∧ p.2 ≤ v := by
  obtain ⟨hv, dis, hdis, rfl⟩ := get?_of_frontier_dist hd
  have hunvisited : s.visited.getD v false = false := Bool.eq_false_iff.mpr fun hvis => hfresh ⟨hv, hvis⟩
  have hmem := h.latest v dis hv hunvisited hdis
  have hle : disDestLe p (dis, v) := by
    rcases List.mem_cons.mp (hminq ▸ hmem) with rfl | hmem
    · exact (disDestLe_iff _ _).mpr (by omega)
    · exact List.rel_of_pairwise_cons (hminq ▸ h.queued.sorted) hmem
  rw [disDestLe_iff] at hle
  rwa [UInt16.le_iff_toNat_le]

theorem Shortest.turn (h : Shortest r s) {p : UInt16 × UInt16} {minq : List (UInt16 × UInt16)}
    (hminq : s.minq = p :: minq) (hnew : s.visited.getD p.2 false = false) :
    Frontier.Turn (onwardCost r) (· ≤ ·) (frontier r.routerId s)
      ((frontier r.routerId s).settle (onwardCost r) p.2 p.1.toNat) := by
  obtain ⟨hhome, hdist, -⟩ := h.front hminq hnew
  refine .settle (fun hdone => ?_) (frontier_dist_of_get? hhome hdist) fun v d => h.first hminq
  rw [hdone.2] at hnew
  cases hnew

private theorem Shortest.frontier_visit (h : Shortest r s) (env : Env) {p : UInt16 × UInt16}
    {minq : List (UInt16 × UInt16)} (hminq : s.minq = p :: minq)
    (hnew : s.visited.getD p.2 false = false) (hfits : TurnFits r s p) :
    frontier r.routerId (Ls.visit env s p.2 minq) =
      (frontier r.routerId s).settle (onwardCost r) p.2 p.1.toNat :=
  (h.settles env hminq hnew hfits).eq_settle fun v w => onward_iff p.2 v w

private theorem Shortest.turnFits_of_exact (h : Shortest r s) {p : UInt16 × UInt16}
    {minq : List (UInt16 × UInt16)} (hminq : s.minq = p :: minq) (hnew : s.visited.getD p.2 false = false)
    (hfits : ∀ v n, ((frontier r.routerId s).settle (onwardCost r) p.2 p.1.toNat).dist v = some n → n < 65536) :
    TurnFits r s p := by
  obtain ⟨hhome, -, -⟩ := h.front hminq hnew
  intro v edge hv hedge himproves
  apply hfits v
  have hcost : onwardCost r p.2 v = some edge.cost.toNat := (onward_iff ..).mp ⟨hhome, hv, edge, hedge, rfl⟩
  simp only [Frontier.settle, hcost]
  exact if_pos (Frontier.improves_iff.mpr ((improves_iff hv).mp himproves))

/-- The search goes on to the one that `update_forwarding_table` ends with. -/
def LeadsTo (env : Env) (s t : Search) : Prop := ∃ fuel, work s ≤ fuel ∧ search env fuel s = t

theorem LeadsTo.visit {env : Env} {t : Search} (h : LeadsTo env s t) {p : UInt16 × UInt16}
    {minq : List (UInt16 × UInt16)} (hminq : s.minq = p :: minq) : LeadsTo env (Ls.visit env s p.2 minq) t := by
  obtain ⟨fuel, hwork, hend⟩ := h
  have hstep := visit_work env s p.2 minq
  rw [work, hminq, List.length_cons] at hwork
  cases fuel with
  | zero => omega
  | succ fuel =>
    rw [search_cons env fuel hminq] at hend
    exact ⟨fuel, by omega, hend⟩

private theorem search_distance_le (env : Env) (fuel : Nat) {s : Search} (hq : Queued s) {v d : UInt16}
    (hd : s.distance.get? v = some d) :
    ∃ d', (search env fuel s).distance.get? v = some d' ∧ d'.toNat ≤ d.toNat := by
  refine search_induct env (P := fun t => ∃ d', t.distance.get? v = some d' ∧ d'.toNat ≤ d.toNat) ?_ fuel s hq
    ⟨d, hd, Nat.le_refl _⟩
  rintro t p minq hq hminq ⟨d', hd', hle⟩
  cases hnew : t.visited.getD p.2 false with
  | true =>
    rw [visit_of_visited env minq hnew]
    exact ⟨d', hd', hle⟩
  | false =>
    obtain ⟨du, -, -, heffect, -⟩ := visit_effect env hq hminq hnew
    have hrecord : (Ls.visit env t p.2 minq).distance.get? v = _ := congrArg Prod.fst (heffect v)
    rw [hrecord]
    cases edgeAt t.graph p.2 v with
    | none => exact ⟨d', hd', hle⟩
    | some edge =>
      simp only [Option.map_some, Option.getD_some, relaxed]
      by_cases himproves : improves (seen (pop t minq) v).1 du edge.cost
      · rw [if_pos himproves]
        refine ⟨_, rfl, ?_⟩
        have hless : du.toNat + edge.cost.toNat < d'.toNat := by
          have hseen : (seen (pop t minq) v).1 = some d' := hd'
          rw [hseen] at himproves
          simpa [improves] using himproves
        have hcut := Nat.mod_le (du.toNat + edge.cost.toNat) (2 ^ 16)
        rw [UInt16.toNat_add]
        omega
      · rw [if_neg himproves]
        exact ⟨d', hd', hle⟩

theorem Shortest.skip {env : Env} {t : Search} {u : UInt16} (hs : Shortest r s) (hleads : LeadsTo env s t)
    (hfresh : ¬ (frontier r.routerId s).done u) (hknown : ((frontier r.routerId s).dist u).isSome) :
    ∃ s' p minq, Shortest r s' ∧ LeadsTo env s' t ∧ frontier r.routerId s' = frontier r.routerId s ∧
      s'.minq = p :: minq ∧ s'.visited.getD p.2 false = false := by
  generalize hlist : s.minq = list
  induction list generalizing s with
  | nil => exact absurd (hs.done_of_empty hlist hknown) hfresh
  | cons p minq ih =>
    cases hnew : s.visited.getD p.2 false with
    | false => exact ⟨s, p, minq, hs, hleads, rfl, hlist, hnew⟩
    | true =>
      have hvisit := hs.visit env hlist fun hunvisited => absurd (hnew.symm.trans hunvisited) (by decide)
      have hnext := hleads.visit hlist
      rw [visit_of_visited env minq hnew] at hvisit hnext
      exact ih (s := pop s minq) hvisit hnext hfresh hknown rfl

section FirstTooLarge

variable {env : Env} {p : UInt16 × UInt16} {minq : List (UInt16 × UInt16)} {v : UInt16} {edge : Edge}

private theorem Shortest.front_le_path (hs : Shortest r s) (hminq : s.minq = p :: minq) (hv : v ≠ r.routerId)
    (hunknown : s.distance.get? v = none) {first : UInt16} {n : Nat} (hpath : PathOver r v first n) :
    p.1.toNat ≤ n := by
  refine hs.inv.le_of_unknown (fun x d hfresh hd => ?_) (by rw [frontier_dist hv, hunknown]; rfl) hpath
  rcases hs.first hminq hfresh hd with hlt | ⟨heq, -⟩
  · exact hlt.le
  · exact heq.le

private theorem Shortest.visit_distance (hs : Shortest r s) (env : Env) (hminq : s.minq = p :: minq)
    (hnew : s.visited.getD p.2 false = false) (hedge : edgeAt r.graph p.2 v = some edge)
    (himproves : improves (s.distance.get? v) p.1 edge.cost) :
    (Ls.visit env s p.2 minq).distance.get? v = some (p.1 + edge.cost) := by
  rcases hs.visit_cases env hminq hnew v with ⟨-, hall⟩ | ⟨edge', hedge', -, hrecord⟩
  · rw [hall edge hedge] at himproves
    cases himproves
  · obtain rfl := Option.some.inj (hedge.symm.trans hedge')
    exact congrArg Prod.fst hrecord

private theorem LeadsTo.route_le (hleads : LeadsTo env s (search env (searchFuel r) (initSearch env r)))
    (hqueued : Queued s) (hv : v ≠ r.routerId) {d : UInt16} (hd : s.distance.get? v = some d) :
    ∃ route, (updateForwardingTable env r).routingTable.get? v = some route ∧ route.cost.toNat ≤ d.toNat := by
  obtain ⟨fuel, -, hend⟩ := hleads
  obtain ⟨d', hd', hle⟩ := search_distance_le env fuel hqueued hd
  rw [hend] at hd'
  refine ⟨⟨d', (search env (searchFuel r) (initSearch env r)).nextHop.getD v 0⟩, ?_, hle⟩
  change (collectRoutes env r (search env (searchFuel r) (initSearch env r))).get? v = _
  rw [collectRoutes_get?, if_neg hv, hd']
  rfl

private theorem Shortest.turnFits_of_result (hnever : NeverNearer r (updateForwardingTable env r).routingTable)
    (hs : Shortest r s) (hleads : LeadsTo env s (search env (searchFuel r) (initSearch env r)))
    (hminq : s.minq = p :: minq) (hnew : s.visited.getD p.2 false = false) : TurnFits r s p := by
  intro v edge hv hedge himproves
  by_contra hlarge
  have hp := p.1.toNat_lt
  have hw := edge.cost.toNat_lt
  have hunknown : s.distance.get? v = none := by
    cases hd : s.distance.get? v with
    | none => rfl
    | some d =>
      have hd' := d.toNat_lt
      simp only [hd, improves, gt_iff_lt, decide_eq_true_eq] at himproves
      omega
  have hentered := hs.visit_distance env hminq hnew hedge himproves
  obtain ⟨route, hroute, hle⟩ := (hleads.visit hminq).route_le (hs.queued.visit env hminq) hv hentered
  rw [UInt16.toNat_add] at hle
  rcases hnever v route hroute with hinf | ⟨first, n, hpath, hnear⟩
  · have hmax : route.cost.toNat = 65535 := congrArg UInt16.toNat hinf
    omega
  · have hfar := hs.front_le_path hminq hv hunknown hpath
    omega

end FirstTooLarge

/-- Where a run of the search has come to when the exact search stands at `st`. -/
def Reached (env : Env) (r : Router) (st : Frontier UInt16 UInt16) : Prop :=
  ∃ s, Shortest r s ∧ LeadsTo env s (search env (searchFuel r) (initSearch env r)) ∧ frontier r.routerId s = st

theorem Reached.turn {env : Env} {st st' : Frontier UInt16 UInt16}
    (hnever : NeverNearer r (updateForwardingTable env r).routingTable) (h : Reached env r st)
    (hturn : Frontier.Turn (onwardCost r) (· ≤ ·) st st') : Reached env r st' := by
  obtain ⟨s, hs, hleads, rfl⟩ := h
  cases hturn with
  | @settle u du hfresh hdist hfirst =>
    obtain ⟨s', p, minq, hs', hleads', hsame, hminq, hnew⟩ := hs.skip hleads hfresh (by rw [hdist]; rfl)
    rw [← hsame] at hfresh hdist hfirst ⊢
    have hfits := hs'.turnFits_of_result hnever hleads' hminq hnew
    obtain ⟨hhome, hp, -⟩ := hs'.front hminq hnew
    have hnotdone : ¬ (frontier r.routerId s').done p.2 := by
      intro hdone
      rw [hdone.2] at hnew
      cases hnew
    -- both orders take the least distance and, of those at it, the least id
    have hother := hs'.first hminq hfresh hdist
    have hthis := hfirst p.2 _ hnotdone (frontier_dist_of_get? hhome hp)
    have hcost : p.1.toNat = du := by omega
    have hrouter : p.2 = u :=
      UInt16.le_antisymm (hother.resolve_left (by omega)).2 (hthis.resolve_left (by omega)).2
    refine ⟨_, hs'.visit env hminq fun _ => hfits, hleads'.visit hminq, ?_⟩
    rw [hs'.frontier_visit env hminq hnew hfits, hcost, hrouter]

/-- What the search keeps when the exact one fits. -/
structure Exact (r : Router) (s : Search) : Prop where
  shortest : Shortest r s
  run : Relation.ReflTransGen (Frontier.Turn (onwardCost r) (· ≤ ·)) (linkFrontier r) (frontier r.routerId s)

theorem Exact.visit (hexact : ExactFits r) (h : Exact r s) (env : Env) {p : UInt16 × UInt16}
    {minq : List (UInt16 × UInt16)} (hminq : s.minq = p :: minq) : Exact r (Ls.visit env s p.2 minq) := by
  obtain ⟨hs, hrun⟩ := h
  cases hnew : s.visited.getD p.2 false with
  | true =>
    refine ⟨hs.visit env hminq fun hunvisited => absurd (hnew.symm.trans hunvisited) (by decide), ?_⟩
    rw [visit_of_visited env minq hnew]
    exact hrun
  | false =>
    have hturn := hrun.tail (hs.turn hminq hnew)
    have hfits := hs.turnFits_of_exact hminq hnew (hexact _ hturn)
    refine ⟨hs.visit env hminq fun _ => hfits, ?_⟩
    rw [hs.frontier_visit env hminq hnew hfits]
    exact hturn

theorem neverNearer_iff (env : Env)
    (hports : ∀ n link, r.neighborTable.get? n = some link → r.portTable.get? link.port = some n) :
    NeverNearer r (updateForwardingTable env r).routingTable ↔ ExactFits r := by
  have hstart := Shortest.start env hports
  have hlinks := frontier_initSearch env hports
  constructor
  · intro hnever st hrun v n hn
    have hreached : Reached env r st := by
      apply run_invariant (Reached env r) hrun
      · exact ⟨_, hstart, ⟨_, initSearch_work env r, rfl⟩, hlinks⟩
      · intro st st' hbefore hturn
        exact hbefore.turn hnever hturn
    obtain ⟨s, -, -, rfl⟩ := hreached
    obtain ⟨-, d, -, rfl⟩ := get?_of_frontier_dist hn
    exact d.toNat_lt
  · intro hexact d route hroute
    have hend : Exact r (search env (searchFuel r) (initSearch env r)) := by
      apply search_induct env (P := Exact r) _ _ _ hstart.queued
      · exact ⟨hstart, by rw [hlinks]⟩
      · intro s p minq _ hminq hbefore
        exact hbefore.visit hexact env hminq
    exact .inr ⟨_, _, hend.shortest.pathOver env hroute, Nat.le_refl _⟩

end Comp556.Ls
