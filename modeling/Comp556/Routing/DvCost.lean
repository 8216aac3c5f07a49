import Comp556.Routing.DvInvariant

/-!
# A link changes its cost

`update` shifts the routes over a link by the difference between its new cost and the cost on record
for the route to its far end. It means the difference to the old cost of the link, and it shifts the
route to the far end as well.
-/

namespace Comp556.Dv

open Router

variable {env : Env} {port n c c' : UInt16} {msg : Memory} {r r' : Router} {link : Link} {d : UInt16}

def orLink (links : NeighborTable) (d : UInt16) (route : Route) : Route :=
  match links.get? d with
  | none => route
  | some link => if link.cost < route.cost then ⟨link.cost, d⟩ else route

/-- A pong of the neighbour `n` that brings another cost than `link`. -/
structure CostChange (env : Env) (port : UInt16) (msg : Memory) (r : Router) (n : UInt16) (link : Link) :
    Prop where
  dest : r.routerId = ntohs (msg.load16 6)
  source : ntohs (msg.load16 4) = n
  port : r.portTable.get? port = some n
  linked : r.neighborTable.get? n = some link
  changed : link.cost ≠ roundTripTime env msg

/-- The change from `c` to `c'` is in all routes: the one to `n`, the others over `n`, and the rest. -/
structure Propagated (n c c' : UInt16) (r r' : Router) : Prop where
  direct : ∀ route, r.routingTable.get? n = some route → route.nextHop = n →
    ∃ route', r'.routingTable.get? n = some route' ∧ route'.cost = c'
  indirect : ∀ route, r.routingTable.get? n = some route → route.nextHop ≠ n →
    r'.routingTable.get? n = some (if c' < route.cost then ⟨c', n⟩ else route)
  through : ∀ d route, d ≠ n → r.routingTable.get? d = some route → route.nextHop = n →
    ∃ cost : UInt16, cost.toNat + c.toNat = route.cost.toNat + c'.toNat ∧
      r'.routingTable.get? d = some (orLink r.neighborTable d ⟨cost, n⟩)
  others : ∀ d route, d ≠ n → r.routingTable.get? d = some route → route.nextHop ≠ n →
    r'.routingTable.get? d = some route ∨ r'.routingTable.get? d = some (orLink r.neighborTable d route)

/-- The new costs of the other routes over `n` are finite costs. -/
def SumsFit (n c c' : UInt16) (r : Router) : Prop :=
  ∀ d route, d ≠ n → r.routingTable.get? d = some route → route.nextHop = n →
    c.toNat ≤ route.cost.toNat + c'.toNat ∧ route.cost.toNat + c'.toNat - c.toNat < 65535

/-- The cost on record for `n` is the old cost of the link, or the difference does not matter to any
other route over `n`, because a link is cheaper either way. -/
def SameShift (n c c' k : UInt16) (r : Router) : Prop :=
  k = c ∨ ∀ d route, d ≠ n → r.routingTable.get? d = some route → route.nextHop = n →
    ∃ link, r.neighborTable.get? d = some link ∧ link.cost < route.cost + (c' - c) ∧
      link.cost < route.cost + (c' - k)

/-- Either the link takes over the route to `n`, on record at a cost that is no higher than its new one
(or more than twice as high, when the sum wraps); or it does not, and no other route goes over `n`. -/
def ShiftsExactly (n c c' : UInt16) (r : Router) (route : Route) : Prop :=
  if takesOver n c' route then
    (route.cost ≤ c' ∧ 2 * c'.toNat ≤ 65535 + route.cost.toNat ∨ 2 * c'.toNat < route.cost.toNat) ∧
      SameShift n c c' route.cost r
  else ∀ d route', d ≠ n → r.routingTable.get? d = some route' → route'.nextHop ≠ n

private theorem add_sub_toNat {x : UInt16} (hlow : c.toNat ≤ x.toNat + c'.toNat)
    (hhigh : x.toNat + c'.toNat - c.toNat < 65535) : (x + (c' - c)).toNat + c.toNat = x.toNat + c'.toNat := by
  have hx := x.toNat_lt
  have hc := c.toNat_lt
  have hc' := c'.toNat_lt
  rw [UInt16.toNat_add, UInt16.toNat_sub]
  omega

private theorem le_add_sub_iff {k : UInt16} :
    c' ≤ c' + (c' - k) ↔ k ≤ c' ∧ 2 * c'.toNat ≤ 65535 + k.toNat ∨ 2 * c'.toNat < k.toNat := by
  have hk := k.toNat_lt
  have hc' := c'.toNat_lt
  rw [UInt16.le_iff_toNat_le, UInt16.le_iff_toNat_le, UInt16.toNat_add, UInt16.toNat_sub]
  omega

/-- Two costs over `n` come to the same only if a link beats both. -/
private theorem orLink_eq_iff {links : NeighborTable} {x y : UInt16} (hd : d ≠ n) (hne : x ≠ y) :
    orLink links d ⟨x, n⟩ = orLink links d ⟨y, n⟩ ↔
      ∃ link, links.get? d = some link ∧ link.cost < x ∧ link.cost < y := by
  unfold orLink
  cases links.get? d with
  | none => simpa using hne
  | some link =>
    by_cases hx : link.cost < x
    · by_cases hy : link.cost < y
      · simp [hx, hy]
      · simp [hx, hy, hd]
    · by_cases hy : link.cost < y
      · simp [hx, hy, Ne.symm hd]
      · simpa [hx, hy] using hne

private theorem adjusted_route (env : Env) (id difference : UInt16) (links : NeighborTable) (d : UInt16)
    (route : Route) (time : Option UInt32) : (adjusted env id difference links d (some route, time)).1 =
      some (orLink links d (if route.nextHop = id then ⟨route.cost + difference, id⟩ else route)) := by
  obtain ⟨cost, hop⟩ := route
  by_cases hhop : hop = id
  · subst hhop
    unfold orLink
    cases hlink : links.get? d with
    | none => simp [adjusted, hlink]
    | some link =>
      by_cases hcheap : link.cost < cost + difference
      · simp [adjusted, hlink, hcheap]
      · simp [adjusted, hlink, hcheap]
  · unfold orLink
    cases hlink : links.get? d with
    | none => simp [adjusted, hlink, hhop]
    | some link =>
      by_cases hcheap : link.cost < cost
      · simp [adjusted, hlink, hcheap, hhop]
      · simp [adjusted, hlink, hcheap, hhop]

/-- The router that `update` is called on. -/
def linkChanged (env : Env) (port n rtt : UInt16) (r : Router) : Router :=
  { r with neighborTable := r.neighborTable.insert env.layout n (freshLink env port rtt) }

theorem CostChange.recvPong (h : CostChange env port msg r n link) (hmode : r.protocolType = .dv)
    {route : Route} (hroute : r.routingTable.get? n = some route) :
    (recvPong env port msg r).1 =
      update env n (roundTripTime env msg) route.cost (linkChanged env port n (roundTripTime env msg) r) := by
  have hnoted : notePong env port n (roundTripTime env msg) r =
      (linkChanged env port n (roundTripTime env msg) r, route.cost, true) := by
    simp only [notePong, h.port, Table.index_of_get? _ h.linked, Table.index_of_get? _ hroute]
    rw [decide_eq_true h.changed]
    rfl
  rw [recvPong_dv env port msg r hmode, if_pos h.dest, h.source, hnoted]
  rfl

theorem CostChange.kept (h : CostChange env port msg r n link) (hmode : r.protocolType = .dv)
    {route : Route} (hroute : r.routingTable.get? n = some route)
    (hkept : ¬ takesOver n (roundTripTime env msg) route) :
    (Router.recvPong env port msg r).1.routingTable = r.routingTable := by
  rw [h.recvPong hmode hroute, update_of_kept env n _ _ (linkChanged env port n _ r) route hroute hkept]
  rfl

/-- All routes after the link has taken over the route to `n`. -/
theorem CostChange.shifted (h : CostChange env port msg r n link) (hmode : r.protocolType = .dv)
    {route : Route} (hroute : r.routingTable.get? n = some route)
    (htakes : takesOver n (roundTripTime env msg) route) :
    (∃ cost, (Router.recvPong env port msg r).1.routingTable.get? n = some ⟨cost, n⟩ ∧
      (cost = roundTripTime env msg ↔
        roundTripTime env msg ≤ roundTripTime env msg + (roundTripTime env msg - route.cost))) ∧
    ∀ d route', d ≠ n → r.routingTable.get? d = some route' →
      (Router.recvPong env port msg r).1.routingTable.get? d = some (orLink r.neighborTable d
        (if route'.nextHop = n then ⟨route'.cost + (roundTripTime env msg - route.cost), n⟩ else route')) := by
  have heffect := (update_effect env n (roundTripTime env msg) route.cost
    (linkChanged env port n (roundTripTime env msg) r) route hroute htakes).2
  rw [← h.recvPong hmode hroute] at heffect
  constructor
  · have hself := congrArg Prod.fst (heffect n)
    rw [if_pos rfl, adjusted_route, if_pos rfl, orLink, linkChanged, Table.get?_insert_self] at hself
    generalize roundTripTime env msg + (roundTripTime env msg - route.cost) = shifted at hself ⊢
    by_cases hcheap : roundTripTime env msg < shifted
    · exact ⟨_, hself.trans (congrArg some (if_pos hcheap)), fun _ => UInt16.le_of_lt hcheap, fun _ => rfl⟩
    · refine ⟨_, hself.trans (congrArg some (if_neg hcheap)), ?_⟩
      have hle := UInt16.not_lt.mp hcheap
      exact ⟨fun heq => heq ▸ UInt16.le_refl _, fun hge => UInt16.le_antisymm hle hge⟩
  · intro d route' hd hroute'
    have hother := congrArg Prod.fst (heffect d)
    have hentry : entryAt (linkChanged env port n (roundTripTime env msg) r) d =
        (some route', r.dvTime.get? d) := by
      rw [← hroute']
      rfl
    rw [if_neg hd, hentry, adjusted_route] at hother
    have hlinks : (linkChanged env port n (roundTripTime env msg) r).neighborTable.get? d =
        r.neighborTable.get? d := Table.get?_insert_of_ne _ _ _ hd
    simp only [orLink, hlinks] at hother ⊢
    exact hother

private theorem sameShift_of_propagated {k : UInt16} (hfit : SumsFit n c c' r)
    (hothers : ∀ d route', d ≠ n → r.routingTable.get? d = some route' → route'.nextHop = n →
      r'.routingTable.get? d = some (orLink r.neighborTable d ⟨route'.cost + (c' - k), n⟩))
    (hchange : Propagated n c c' r r') : SameShift n c c' k r := by
  by_cases hk : k = c
  · exact .inl hk
  · apply Or.inr
    intro d route' hd hroute' hvia
    obtain ⟨cost, hsum, hnew⟩ := hchange.through d route' hd hroute' hvia
    obtain ⟨hlow, hhigh⟩ := hfit d route' hd hroute' hvia
    have hcost : cost = route'.cost + (c' - c) :=
      UInt16.toNat_inj.mp (Nat.add_right_cancel (hsum.trans (add_sub_toNat hlow hhigh).symm))
    rw [hothers d route' hd hroute' hvia, Option.some.injEq, hcost] at hnew
    have hne : route'.cost + (c' - c) ≠ route'.cost + (c' - k) := by
      rw [Ne, UInt16.add_right_inj, UInt16.sub_right_inj]
      exact Ne.symm hk
    exact (orLink_eq_iff hd hne).mp hnew.symm

section Cases

variable {route : Route} (hroute : r.routingTable.get? n = some route)
include hroute

private theorem propagated_of_kept_iff (hchanged : c ≠ c') (hkept : ¬ takesOver n c' route)
    (hsame : r'.routingTable = r.routingTable) :
    Propagated n c c' r r' ↔
      ∀ d route', d ≠ n → r.routingTable.get? d = some route' → route'.nextHop ≠ n := by
  obtain ⟨hhop, hcost⟩ := not_or.mp hkept
  have hself (route' : Route) (h : r.routingTable.get? n = some route') : route' = route :=
    Option.some.inj (h.symm.trans hroute)
  constructor
  · intro hchange d route' hd hroute' hvia
    obtain ⟨cost, hsum, hnew⟩ := hchange.through d route' hd hroute' hvia
    rw [hsame, hroute', Option.some.injEq, orLink] at hnew
    have hmoved : route'.cost = cost ∨ n = d := by
      cases hlink : r.neighborTable.get? d with
      | none => exact .inl (by rw [hnew, hlink])
      | some link' =>
        rw [hlink] at hnew
        dsimp only at hnew
        split at hnew
        · exact .inr (hvia.symm.trans (congrArg Route.nextHop hnew))
        · exact .inl (congrArg Route.cost hnew)
    have heq := hmoved.resolve_right (Ne.symm hd)
    subst heq
    exact hchanged (UInt16.toNat_inj.mp (by omega))
  · intro hnone
    constructor
    · intro route' h hdirect
      exact absurd (hself route' h ▸ hdirect) hhop
    · intro route' h _
      rw [hsame, h, hself route' h, if_neg hcost]
    · intro d route' hd h hvia
      exact absurd hvia (hnone d route' hd h)
    · intro d route' _ h _
      exact .inl (by rw [hsame, h])

private theorem own_cost_of_propagated (htakes : takesOver n c' route) {own : UInt16}
    (hown : r'.routingTable.get? n = some ⟨own, n⟩) (hchange : Propagated n c c' r r') : own = c' := by
  by_cases hhop : route.nextHop = n
  · obtain ⟨route', hroute', hcost⟩ := hchange.direct route hroute hhop
    obtain rfl := Option.some.inj (hown.symm.trans hroute')
    exact hcost
  · have hnew := hchange.indirect route hroute hhop
    rw [if_pos (htakes.resolve_left hhop), hown] at hnew
    exact congrArg Route.cost (Option.some.inj hnew)

private theorem propagated_of_shifted_iff (hfit : SumsFit n c c' r) (htakes : takesOver n c' route)
    (hself : ∃ cost, r'.routingTable.get? n = some ⟨cost, n⟩ ∧
      (cost = c' ↔ c' ≤ c' + (c' - route.cost)))
    (hothers : ∀ d route', d ≠ n → r.routingTable.get? d = some route' →
      r'.routingTable.get? d = some (orLink r.neighborTable d
        (if route'.nextHop = n then ⟨route'.cost + (c' - route.cost), n⟩ else route'))) :
    Propagated n c c' r r' ↔ c' ≤ c' + (c' - route.cost) ∧ SameShift n c c' route.cost r := by
  obtain ⟨own, hown, hexact⟩ := hself
  rw [← hexact]
  constructor
  · intro hchange
    refine ⟨own_cost_of_propagated hroute htakes hown hchange, sameShift_of_propagated hfit ?_ hchange⟩
    intro d route' hd hroute' hvia
    rw [hothers d route' hd hroute', if_pos hvia]
  · rintro ⟨hcost, hshift⟩
    subst hcost
    constructor
    · exact fun _ _ _ => ⟨_, hown, rfl⟩
    · intro route' h hhop
      obtain rfl := Option.some.inj (hroute.symm.trans h)
      rw [hown, if_pos (htakes.resolve_left hhop)]
    · intro d route' hd hroute' hvia
      obtain ⟨hlow, hhigh⟩ := hfit d route' hd hroute' hvia
      refine ⟨_, add_sub_toNat hlow hhigh, ?_⟩
      rw [hothers d route' hd hroute', if_pos hvia]
      rcases hshift with hk | hcheap
      · rw [hk]
      · by_cases hne : route'.cost + (own - c) = route'.cost + (own - route.cost)
        · rw [hne]
        · rw [(orLink_eq_iff hd hne).mpr (hcheap d route' hd hroute' hvia)]
    · intro d route' hd hroute' hvia
      exact .inr (by rw [hothers d route' hd hroute', if_neg hvia])

end Cases

/-- A change of a link. -/
theorem recvPong_propagates_iff (env : Env) (port : UInt16) (msg : Memory) {r : Router} {n : UInt16}
    {link : Link}
    (hmode : r.protocolType = .dv) (hrouted : ∀ d, d ∈ r.neighborTable.keys → d ∈ r.routingTable.keys)
    (h : CostChange env port msg r n link) (hfit : SumsFit n link.cost (roundTripTime env msg) r) :
    ∃ route, r.routingTable.get? n = some route ∧
      (Propagated n link.cost (roundTripTime env msg) r (recvPong env port msg r).1 ↔
        ShiftsExactly n link.cost (roundTripTime env msg) r route) := by
  simp only [Table.mem_keys_iff] at hrouted
  obtain ⟨route, hroute⟩ := Option.isSome_iff_exists.mp (hrouted n (by rw [h.linked]; rfl))
  refine ⟨route, hroute, ?_⟩
  unfold ShiftsExactly
  by_cases htakes : takesOver n (roundTripTime env msg) route
  · obtain ⟨hself, hothers⟩ := h.shifted hmode hroute htakes
    rw [if_pos htakes, ← le_add_sub_iff]
    exact propagated_of_shifted_iff hroute hfit htakes hself hothers
  · rw [if_neg htakes]
    exact propagated_of_kept_iff hroute h.changed htakes (h.kept hmode hroute htakes)

def linkedRouter : Router := (recvPong (sampleEnv 5) 0 firstPong.block.memory (Router.init 1 1 .dv)).1

private theorem linkedRouter_reachable : DvReachable (fun _ => 10) 1 1 linkedRouter :=
  .single ⟨sampleEnv 5, .packet 0 firstPong, _, firstPong_event, rfl⟩

def secondPong : Packet := samplePacket [(0, 2), (5, 10), (7, 1), (11, 10)] 12

private theorem linkedRouter_route (d : UInt16) {route : Route}
    (h : linkedRouter.routingTable.get? d = some route) :
    d = 10 ∧ route = ⟨5, 10⟩ := by
  have hentries : linkedRouter.routingTable.entries = [(10, ⟨5, 10⟩)] := by decide
  have hmem := (Table.mem_entries_iff ..).mpr h
  rw [hentries, List.mem_singleton] at hmem
  exact Prod.mk.inj hmem

private theorem linkedRouter_sumsFit (c c' : UInt16) : SumsFit 10 c c' linkedRouter := by
  intro d route hd hroute _
  exact absurd (linkedRouter_route d hroute).1 hd

private theorem secondPong_change (time : UInt32)
    (htime : 5 ≠ roundTripTime (sampleEnv time) secondPong.block.memory) :
    CostChange (sampleEnv time) 0 secondPong.block.memory linkedRouter 10 ⟨5, 0, 15005⟩ :=
  ⟨by decide, by decide, by decide, by decide, htime⟩

theorem slower_propagated : Propagated 10 5 8 linkedRouter
    (recvPong (sampleEnv 18) 0 secondPong.block.memory linkedRouter).1 := by
  have hkeys : linkedRouter.neighborTable.keys = linkedRouter.routingTable.keys := by decide
  obtain ⟨route, hroute, hpropagates⟩ := recvPong_propagates_iff (sampleEnv 18) 0 secondPong.block.memory
    (r := linkedRouter) (by decide) (fun d hd => hkeys ▸ hd) (secondPong_change 18 (by decide))
    (linkedRouter_sumsFit _ _)
  obtain ⟨-, rfl⟩ := linkedRouter_route 10 hroute
  apply hpropagates.mpr
  rw [ShiftsExactly, if_pos (by decide)]
  exact ⟨by decide, .inl rfl⟩

/-- The link gets faster, from 5 to 3, and the route to its far end gets faster twice. -/
theorem faster_not_propagated : DvReachable (fun _ => 10) 1 1 linkedRouter ∧
    CostChange (sampleEnv 13) 0 secondPong.block.memory linkedRouter 10 ⟨5, 0, 15005⟩ ∧
    SumsFit 10 5 3 linkedRouter ∧
    (recvPong (sampleEnv 13) 0 secondPong.block.memory linkedRouter).1.routingTable.get? 10 = some ⟨1, 10⟩ ∧
    ¬ Propagated 10 5 3 linkedRouter (recvPong (sampleEnv 13) 0 secondPong.block.memory linkedRouter).1 := by
  have hroute : (recvPong (sampleEnv 13) 0 secondPong.block.memory linkedRouter).1.routingTable.get? 10 =
      some ⟨1, 10⟩ := by decide
  refine ⟨linkedRouter_reachable, secondPong_change 13 (by decide), linkedRouter_sumsFit _ _, hroute, ?_⟩
  intro hchange
  obtain ⟨route, hnew, hcost⟩ := hchange.direct ⟨5, 10⟩ (by decide) rfl
  obtain rfl := Option.some.inj (hroute.symm.trans hnew)
  exact absurd hcost (by decide)

end Comp556.Dv
