import Comp556.Routing.DvRouter

/-!
# Invariants of a distance-vector router

The tables of a reachable router agree, and `recv` is the one handler that can leave a neighbour
on a detour dearer than its own link.
-/

namespace Comp556.Dv

open Router

variable {attached : UInt16 → UInt16} {numPorts routerId : UInt16} {r : Router}

/-- In every state of a router in DV mode deadlines belong to routes, every neighbour is routed, the router
has no route to itself and every next hop is a neighbour. So no handler dereferences a missing entry, a pong
on a known port enters no default route, and a data packet that finds a route also finds the link to its
next hop. -/
theorem reachable_tables_match (ha : Attached attached numPorts routerId)
    (hrun : DvReachable attached numPorts routerId r) :
    (∀ d, d ∈ r.dvTime.keys ↔ d ∈ r.routingTable.keys) ∧
      (∀ n, n ∈ r.neighborTable.keys → n ∈ r.routingTable.keys) ∧
      routerId ∉ r.routingTable.keys ∧
      (∀ d route, r.routingTable.get? d = some route → route.nextHop ∈ r.neighborTable.keys) ∧
      (∀ env event, DvEvent attached numPorts event → (handle env r event).isSome) ∧
      (∀ env port rtt, (notePong env port (attached port) rtt r).1.routingTable = r.routingTable) ∧
      (∀ packet route, ntohs (packet.block.memory.load16 6) ≠ routerId →
        r.routingTable.get? (ntohs (packet.block.memory.load16 6)) = some route →
        ∃ link, r.neighborTable.get? route.nextHop = some link ∧
          recvData packet r = [.send link.port packet]) := by
  have h := DvInv.run ha hrun
  simp only [Table.mem_keys_iff]
  refine ⟨fun d => ?_, fun n => (h.tables n).neighbor, ?_, fun d route => (h.tables d).hop route,
    ?_, ?_, ?_⟩
  · exact iff_of_eq (congrArg (· = true) (h.tables d).deadline)
  · have hself := (h.tables routerId).no_self h.routerId.symm
    simpa [entryAt] using hself
  · intro env event hevent
    obtain ⟨r', calls, hhandle, _⟩ := h.handle ha env hevent
    simp [hhandle]
  · exact fun env port rtt => notePong_routingTable env port rtt h.tables h.ports
  · intro packet route hdest hroute
    obtain ⟨link, hlink⟩ := Option.isSome_iff_exists.mp ((h.tables _).hop route hroute)
    refine ⟨link, hlink, ?_⟩
    rw [← h.routerId] at hdest
    simp [recvData, hdest, hroute, hlink]

def firstPong : Packet := samplePacket [(0, 2), (5, 10), (7, 1)] 12

theorem onePort_attached : Attached (fun _ => 10) 1 1 where
  ne_self _ _ := by decide
  injective p q hp hq _ := by
    have hp' := UInt16.lt_iff_toNat_lt.mp hp
    have hq' := UInt16.lt_iff_toNat_lt.mp hq
    apply UInt16.toNat_inj.mp
    change p.toNat < 1 at hp'
    change q.toNat < 1 at hq'
    omega

theorem firstPong_event : DvEvent (fun _ => 10) 1 (.packet 0 firstPong) := by decide

def twoPorts (port : UInt16) : UInt16 := if port = 0 then 10 else 20

theorem twoPorts_attached : Attached twoPorts 2 1 := by
  have hports (p : UInt16) (hp : p < 2) : p = 0 ∨ p = 1 := by
    have hlt := UInt16.lt_iff_toNat_lt.mp hp
    change p.toNat < 2 at hlt
    rcases Nat.lt_or_ge p.toNat 1 with h | h
    · exact .inl (UInt16.toNat_inj.mp (show p.toNat = 0 by omega))
    · exact .inr (UInt16.toNat_inj.mp (show p.toNat = 1 by omega))
  constructor
  · intro p hp
    rcases hports p hp with rfl | rfl <;> decide
  · intro p q hp hq
    rcases hports p hp with rfl | rfl <;> rcases hports q hq with rfl | rfl <;> decide

def otherPong : Packet := samplePacket [(0, 2), (5, 20), (7, 1)] 12

/-- Router 10 advertises 20 at cost 2 and 30 at cost 7. -/
def twoRoutes : Packet := samplePacket [(0, 3), (5, 10), (9, 20), (11, 2), (13, 30), (15, 7)] 16

/-- Router 10 answers at cost 1 and router 20 at cost 10. Then 10 advertises its routes, the alarms go off
and 20 sends data for 30. -/
def mixedEvents : List (Env × Event) :=
  [(sampleEnv 1, .packet 0 firstPong), (sampleEnv 10, .packet 1 otherPong), (sampleEnv 20, .packet 0 twoRoutes),
    (sampleEnv 1000, .alarm .port), (sampleEnv 1000, .alarm .dv), (sampleEnv 10000, .alarm .ping),
    (sampleEnv 10010, .packet 1 (samplePacket [(5, 20), (7, 30)] 8))]

theorem mixedEvents_events : ∀ e ∈ mixedEvents, DvEvent twoPorts 2 e.2 := by decide +kernel

theorem mixedEvents_routed : ∃ r, handleAll (Router.init 2 1 .dv) mixedEvents = some r ∧
    r.routingTable.get? 30 = some ⟨8, 10⟩ ∧
    ∀ d route, r.routingTable.get? d = some route → route.nextHop ∈ r.neighborTable.keys := by
  have hrun : (handleAll (Router.init 2 1 .dv) mixedEvents).map (fun r => r.routingTable.get? 30) =
      some (some ⟨8, 10⟩) := by
    decide +kernel
  obtain ⟨r, hr, hroute⟩ := Option.map_eq_some_iff.mp hrun
  have hall := reachable_tables_match twoPorts_attached (handleAll_reaches mixedEvents_events hr)
  exact ⟨r, hr, hroute, hall.2.2.2.1⟩

/-- The route to a neighbour costs at most the link to it. -/
def Direct (links : NeighborTable) (d : UInt16) (entry : Option Route × Option UInt32) : Prop :=
  ∀ link route, links.get? d = some link → entry.1 = some route → route.cost ≤ link.cost

def NoDetour (r : Router) : Prop := ∀ d, Direct r.neighborTable d (entryAt r d)

/-- `recv` takes the cost of the route from the sender: the route already goes through it, or it
leads to it and the cost the sender lists for this router is lower. -/
def viaSource (sourceId back d : UInt16) (route : Route) : Prop :=
  route.nextHop = sourceId ∨ d = sourceId ∧ route.cost > back

/-- The packet announces a finite cost for a neighbour that is routed through the sender, and the
detour over the sender is dearer than the link to the neighbour. -/
def OffersDetour (env : Env) (r : Router) (packet : Packet) : Prop :=
  let sourceId := ntohs (packet.block.memory.load16 4)
  let dvTable := readTable env packet.block.memory packet.size
  ∃ n link route sourceLink a, r.neighborTable.get? n = some link ∧
    r.routingTable.get? n = some route ∧ r.neighborTable.get? sourceId = some sourceLink ∧
    dvTable.get? n = some a ∧ a ≠ infinityCost ∧
    viaSource sourceId (dvTable.getD r.routerId 0) n route ∧ link.cost < a + sourceLink.cost

def DetourEvent (env : Env) (r : Router) : Event → Prop
  | .packet _ packet => PacketType.ofCode (packet.block.memory 0) = some .dv ∧ OffersDetour env r packet
  | .alarm _ => False

section Entry

variable {env : Env} {links : NeighborTable} {d : UInt16} {entry : Option Route × Option UInt32}

theorem Direct.preferred (h : Direct links d entry) (sourceId back : UInt16) :
    Direct links d (preferred sourceId back d entry) := by
  obtain ⟨_ | route, time⟩ := entry
  · exact h
  · simp only [Dv.preferred]
    split
    · rename_i hcond
      intro link route' hlink hroute
      obtain rfl := Option.some.inj hroute
      exact UInt16.le_trans (UInt16.le_of_lt hcond.2.1) (h link route hlink rfl)
    · exact h

/-- Learning a route keeps its cost within a limit unless the cost is taken from a sender whose
path is dearer. -/
private theorem learned_cost_le_iff (env : Env) (sourceId back totalCost : UInt16) {limit : UInt16}
    {route : Route} (time : Option UInt32) (h : route.cost ≤ limit) :
    ∃ route', (learned env sourceId totalCost (preferred sourceId back d (some route, time))).1 =
        some route' ∧
      (route'.cost ≤ limit ↔ ¬(viaSource sourceId back d route ∧ limit < totalCost)) := by
  have htaken (hop : UInt16) (cost : UInt16) (time : Option UInt32) (hhop : hop = sourceId) :
      ∃ route', (learned env sourceId totalCost (some ⟨cost, hop⟩, time)).1 = some route' ∧
        route'.cost = totalCost := by
    simp only [learned, hhop, true_and]
    split
    · exact ⟨_, rfl, rfl⟩
    · rename_i hsame
      exact ⟨_, rfl, by simpa using (not_or.mp hsame).1⟩
  have hlimit (hvia : viaSource sourceId back d route) :
      totalCost ≤ limit ↔ ¬(viaSource sourceId back d route ∧ limit < totalCost) := by
    simp [hvia, UInt16.not_lt]
  by_cases hback : d = sourceId ∧ route.cost > back ∧ route.nextHop ≠ sourceId
  · obtain ⟨route', heq, hcost⟩ := htaken sourceId back time rfl
    refine ⟨route', ?_, hcost ▸ hlimit (.inr ⟨hback.1, hback.2.1⟩)⟩
    rw [Dv.preferred, if_pos hback, heq]
  · rw [Dv.preferred, if_neg hback]
    by_cases hhop : route.nextHop = sourceId
    · obtain ⟨route', heq, hcost⟩ := htaken route.nextHop route.cost time hhop
      exact ⟨route', heq, hcost ▸ hlimit (.inl hhop)⟩
    · have hvia : ¬ viaSource sourceId back d route := by
        rintro (hn | ⟨hd, hcost⟩)
        · exact hhop hn
        · exact hback ⟨hd, hcost, hhop⟩
      simp only [learned, hhop, false_and, false_or, if_false, hvia, not_false_eq_true, iff_true]
      split
      · rename_i hbetter
        exact ⟨_, rfl, UInt16.le_trans (UInt16.le_of_lt hbetter) h⟩
      · exact ⟨_, rfl, h⟩

private theorem Direct.received_iff (h : Direct links d entry) (hroute : entry.1.isSome) (env : Env)
    (sourceId c back : UInt16) (listed : Option UInt16) {routerId : UInt16} (hself : d ≠ routerId)
    {link : Link} (hlink : links.get? d = some link) :
    Direct links d (received env routerId sourceId c back listed d entry) ↔
      ¬ ∃ a route, entry.1 = some route ∧ listed = some a ∧ a ≠ infinityCost ∧
        viaSource sourceId back d route ∧ link.cost < a + c := by
  obtain ⟨_ | route, time⟩ := entry
  · exact absurd hroute (by simp)
  cases listed with
  | none => simpa [Dv.received] using h.preferred sourceId back
  | some a =>
    by_cases hinf : a = infinityCost
    · simpa [Dv.received, hinf] using h.preferred sourceId back
    · obtain ⟨route', heq, hcost⟩ := learned_cost_le_iff (d := d) env sourceId back (a + c) time
        (h link route hlink rfl)
      have hdirect : Direct links d
          (learned env sourceId (a + c) (Dv.preferred sourceId back d (some route, time))) ↔
            route'.cost ≤ link.cost := by
        simp [Direct, heq, hlink]
      simp only [Dv.received, hself, hinf, or_self, if_false]
      rw [hdirect, hcost]
      simp [hinf]

theorem Direct.adjusted (env : Env) (links : NeighborTable) (id difference d : UInt16)
    (entry : Option Route × Option UInt32) : Direct links d (adjusted env id difference links d entry) := by
  intro link route hlink hroute
  obtain ⟨_ | old, time⟩ := entry
  · exact absurd hroute (by simp [Dv.adjusted])
  · simp only [Dv.adjusted, hlink] at hroute
    generalize (if old.nextHop = id then old.cost + difference else old.cost) = cost at hroute
    split at hroute
    · obtain rfl := Option.some.inj hroute
      exact UInt16.le_refl _
    · rename_i hcost
      obtain rfl := Option.some.inj hroute
      exact UInt16.not_lt.mp hcost

theorem Direct.fallback (env : Env) (links : NeighborTable) (d : UInt16) :
    Direct links d (fallback env links d) := by
  intro link route hlink hroute
  simp only [Dv.fallback, hlink, Option.some.injEq] at hroute
  exact hroute ▸ UInt16.le_refl _

theorem Direct.refreshed (h : Direct links d entry) : Direct links d (refreshed env links d entry) := by
  obtain ⟨_ | route, _ | deadline⟩ := entry
  case some.some =>
    simp only [Dv.refreshed]
    generalize (if d = route.nextHop then renewed env else deadline) = deadline
    by_cases hlate : env.time ≥ deadline
    · rw [if_pos hlate]
      exact .fallback env links d
    · rw [if_neg hlate]
      exact fun link route' hlink hroute => h link route' hlink hroute
  all_goals exact h

theorem Direct.earsed {toEarse : List UInt16} (h : Direct links d entry) :
    Direct links d (earsed env toEarse links d entry) := by
  obtain ⟨_ | route, time⟩ := entry
  · exact h
  · simp only [Dv.earsed]
    split
    · exact .fallback env links d
    · exact h

end Entry

theorem NoDetour.init (numPorts routerId : UInt16) : NoDetour (Router.init numPorts routerId .dv) :=
  fun _ _ _ hlink => by cases hlink

/-- `update` leaves no detour when the link to `id` is the only one that has changed. -/
theorem NoDetour.update {env : Env} {id rtt oldRTT : UInt16} {link : Link}
    (hlink : r.neighborTable.get? id = some link) (hcost : link.cost = rtt)
    (hothers : ∀ d, d ≠ id → Direct r.neighborTable d (entryAt r d)) :
    NoDetour (update env id rtt oldRTT r) := by
  intro d
  rw [(update_keepsLinks env id rtt oldRTT r).neighborTable]
  cases hroute : r.routingTable.get? id with
  | none =>
    rw [update_of_no_route env id rtt oldRTT r hroute, entryAt_setDirect]
    split
    · rename_i hd
      subst hd
      intro link' route' hlink' hroute'
      obtain rfl := Option.some.inj (hlink.symm.trans hlink')
      obtain rfl := Option.some.inj hroute'
      exact hcost ▸ UInt16.le_refl _
    · rename_i hd
      exact hothers d hd
  | some route =>
    by_cases htakes : takesOver id rtt route
    · rw [(update_effect env id rtt oldRTT r route hroute htakes).2 d]
      exact .adjusted env r.neighborTable id _ d _
    · rw [update_of_kept env id rtt oldRTT r route hroute htakes]
      by_cases hd : d = id
      · subst hd
        intro link' route' hlink' hroute'
        obtain rfl := Option.some.inj (hlink.symm.trans hlink')
        obtain rfl := Option.some.inj (hroute.symm.trans hroute')
        exact hcost ▸ UInt16.not_lt.mp (not_or.mp htakes).2
      · exact hothers d hd

theorem NoDetour.recvPong (h : NoDetour r) (hinv : DvInv attached numPorts routerId r) (env : Env)
    {port : UInt16} {packet : Packet} (hfrom : FromAttached attached numPorts port packet) :
    NoDetour (recvPong env port packet.block.memory r).1 := by
  let n := attached port
  let rtt := roundTripTime env packet.block.memory
  obtain ⟨hlinks, _⟩ := notePong_tables env port rtt hinv.ports
  have hentry := (hinv.tables.notePong env port rtt hinv.ports).2.1
  have hnew : (notePong env port n rtt r).1.neighborTable.get? n = some (freshLink env port rtt) :=
    (hlinks n).trans (if_pos rfl)
  have hothers (d : UInt16) (hd : d ≠ n) :
      Direct (notePong env port n rtt r).1.neighborTable d (entryAt (notePong env port n rtt r).1 d) := by
    intro link route hlink hroute
    rw [hlinks, if_neg hd] at hlink
    rw [hentry] at hroute
    exact h d link route hlink hroute
  rw [recvPong_dv env port _ r hinv.mode, hfrom.2]
  split
  · split
    · exact .update hnew rfl hothers
    · rename_i hsame
      intro d
      by_cases hd : d = n
      · subst hd
        have hknown : r.portTable.contains port := by
          by_contra hunknown
          simp [notePong_of_new env port rtt hunknown, rtt] at hsame
        obtain ⟨old, hold, _, hnote⟩ := notePong_of_known env port rtt hinv.ports hknown
        have hcost : old.cost = rtt := by simpa [hnote, rtt] using hsame
        intro link route hlink hroute
        obtain rfl := Option.some.inj (hnew.symm.trans hlink)
        rw [hentry] at hroute
        exact hcost ▸ h n old route hold hroute
      · exact hothers d hd
  · exact h

theorem NoDetour.updateTimeout (h : NoDetour r) (hinv : DvInv attached numPorts routerId r) (env : Env)
    {r' : Router} {calls : List SysCall} (hrun : updateTimeout env r = some (r', calls)) :
    NoDetour r' := by
  obtain ⟨r'', _, hrun', hkeeps, heffect⟩ := updateTimeout_effect env r hinv.mode fun d hd =>
    (hinv.tables d).deadline ▸ hd
  obtain ⟨rfl, -⟩ := Prod.mk.inj (Option.some.inj (hrun.symm.trans hrun'))
  intro d
  rw [hkeeps.neighborTable, heffect d]
  refine Direct.refreshed (Direct.earsed ?_)
  intro link route hlink hroute
  rw [dropExpired_neighborTable, Option.filter_eq_some_iff] at hlink
  exact h d link route hlink.1 hroute

private theorem NoDetour.recv_iff (h : NoDetour r) (hinv : DvInv attached numPorts routerId r)
    (ha : Attached attached numPorts routerId) (env : Env) {port : UInt16} {packet : Packet}
    (hfrom : FromAttached attached numPorts port packet) {r' : Router} {calls : List SysCall}
    (hrun : recv env port packet.block.memory packet.size r = some (r', calls)) :
    NoDetour r' ↔ ¬ OffersDetour env r packet := by
  cases hsource : r.neighborTable.get? (ntohs (packet.block.memory.load16 4)) with
  | none =>
    rw [recv_of_not_neighbor env port _ _ r hsource] at hrun
    obtain ⟨rfl, -⟩ := Prod.mk.inj (Option.some.inj hrun)
    simp [OffersDetour, hsource, h]
  | some sourceLink =>
    obtain ⟨r'', _, hrun', hkeeps, heffect⟩ := recv_effect env port packet.block.memory packet.size r
      sourceLink (hinv.sender ha hfrom hsource) hsource
    obtain ⟨rfl, -⟩ := Prod.mk.inj (Option.some.inj (hrun.symm.trans hrun'))
    have hentry (d : UInt16) (link : Link) (hlink : r.neighborTable.get? d = some link) :=
      (h d).received_iff ((hinv.tables d).neighbor (by simp [hlink])) env
        (ntohs (packet.block.memory.load16 4)) sourceLink.cost
        ((readTable env packet.block.memory packet.size).getD r.routerId 0)
        ((readTable env packet.block.memory packet.size).get? d)
        ((hinv.tables d).neighbor_ne_self (by simp [hlink])) hlink
    rw [NoDetour, hkeeps.neighborTable]
    simp only [heffect]
    constructor
    · rintro hdirect ⟨n, link, route, _, a, hlink, hroute, hs, hlisted, hinf, hvia, hcost⟩
      obtain rfl := Option.some.inj (hsource.symm.trans hs)
      exact (hentry n link hlink).mp (hdirect n) ⟨a, route, hroute, hlisted, hinf, hvia, hcost⟩
    · intro hoffer d link route hlink
      refine (hentry d link hlink).mpr ?_ link route hlink
      rintro ⟨a, old, hold, hlisted, hinf, hvia, hcost⟩
      exact hoffer ⟨d, link, old, sourceLink, a, hlink, hold, hsource, hlisted, hinf, hvia, hcost⟩

private theorem NoDetour.handle_iff (h : NoDetour r) (hinv : DvInv attached numPorts routerId r)
    (ha : Attached attached numPorts routerId) (env : Env) {event : Event}
    (hevent : DvEvent attached numPorts event) {r' : Router} {calls : List SysCall}
    (hhandle : handle env r event = some (r', calls)) : NoDetour r' ↔ ¬ DetourEvent env r event := by
  cases event with
  | packet port packet =>
    simp only [DvEvent] at hevent
    simp only [handle, Router.recv] at hhandle
    simp only [DetourEvent]
    cases htype : PacketType.ofCode (packet.block.memory 0) with
    | none =>
      rw [htype] at hhandle
      obtain ⟨rfl, -⟩ := Prod.mk.inj (Option.some.inj hhandle)
      simp [h]
    | some type =>
      rw [htype] at hevent hhandle
      cases type with
      | dv => simpa using h.recv_iff hinv ha env hevent hhandle
      | pong =>
        have hpong := h.recvPong hinv env hevent
        have heq : (Router.recvPong env port packet.block.memory r).1 = r' :=
          congrArg Prod.fst (Option.some.inj hhandle)
        simpa [heq] using hpong
      | ls => exact hevent.elim
      | _ =>
        obtain ⟨rfl, -⟩ := Prod.mk.inj (Option.some.inj hhandle)
        simp [h]
  | alarm alarm =>
    simp only [DetourEvent, not_false_eq_true, iff_true]
    cases alarm with
    | ls => exact absurd rfl hevent
    | port =>
      simp only [handle, handleAlarm, Option.map_eq_some_iff] at hhandle
      obtain ⟨⟨s, _⟩, hrun, heq⟩ := hhandle
      obtain ⟨rfl, -⟩ := Prod.mk.inj heq
      exact h.updateTimeout hinv env hrun
    | _ =>
      obtain ⟨rfl, -⟩ := Prod.mk.inj (Option.some.inj hhandle)
      exact h

/-- One event of DV mode that is not a packet offering a detour. -/
def StraightStep (attached : UInt16 → UInt16) (numPorts : UInt16) (r r' : Router) : Prop :=
  ∃ env event calls, DvEvent attached numPorts event ∧ ¬ DetourEvent env r event ∧
    handle env r event = some (r', calls)

private theorem StraightStep.eventStep {r r' : Router} (h : StraightStep attached numPorts r r') :
    EventStep (DvEvent attached numPorts) r r' := by
  obtain ⟨env, event, calls, hevent, _, hhandle⟩ := h
  exact ⟨env, event, calls, hevent, hhandle⟩

/-- As long as no DV packet offers a detour, every neighbour is routed at no more than the cost of its link;
the first packet that offers one ends this. -/
theorem straight_run_noDetour (ha : Attached attached numPorts routerId)
    (hrun : Relation.ReflTransGen (StraightStep attached numPorts) (Router.init numPorts routerId .dv) r) :
    (∀ n link, r.neighborTable.get? n = some link →
      ∃ route, r.routingTable.get? n = some route ∧ route.cost ≤ link.cost) ∧
    ∀ env event r' calls, DvEvent attached numPorts event → handle env r event = some (r', calls) →
      (NoDetour r' ↔ ¬ DetourEvent env r event) := by
  have hinv := DvInv.run ha (hrun.lift id fun _ _ h => StraightStep.eventStep h)
  have hdirect : NoDetour r := by
    refine (run_invariant (fun s => DvInv attached numPorts routerId s ∧ NoDetour s) hrun
      ⟨.init attached numPorts routerId, .init numPorts routerId⟩ ?_).2
    rintro s s' ⟨hs, hd⟩ ⟨env, event, calls, hevent, hstraight, hhandle⟩
    refine ⟨?_, (hd.handle_iff hs ha env hevent hhandle).mpr hstraight⟩
    obtain ⟨_, _, hhandle', hs'⟩ := hs.handle ha env hevent
    obtain ⟨rfl, -⟩ := Prod.mk.inj (Option.some.inj (hhandle.symm.trans hhandle'))
    exact hs'
  refine ⟨fun n link hlink => ?_, fun env event r' calls hevent hhandle =>
    hdirect.handle_iff hinv ha env hevent hhandle⟩
  obtain ⟨route, hroute⟩ := Option.isSome_iff_exists.mp ((hinv.tables n).neighbor (by simp [hlink]))
  exact ⟨route, hroute, hdirect n link route hlink hroute⟩

private theorem twoRoutes_straight (hroute : r.routingTable.get? 20 = some ⟨10, 20⟩)
    (hfar : r.neighborTable.get? 30 = none) :
    ¬ OffersDetour (sampleEnv 20) r twoRoutes := by
  have hkeys : (readTable (sampleEnv 20) twoRoutes.block.memory twoRoutes.size).keys = [30, 20] := by
    decide +kernel
  rintro ⟨n, link, route, sourceLink, a, hlink, hroute', -, hlisted, -, hvia, -⟩
  have hn : n ∈ (readTable (sampleEnv 20) twoRoutes.block.memory twoRoutes.size).keys :=
    (Table.mem_keys_iff ..).mpr (Option.isSome_of_eq_some hlisted)
  rw [hkeys, List.mem_cons, List.mem_singleton] at hn
  rcases hn with rfl | rfl
  · cases hfar.symm.trans hlink
  · obtain rfl := Option.some.inj (hroute.symm.trans hroute')
    rcases hvia with hhop | ⟨hself, -⟩
    · exact absurd hhop (by decide)
    · exact absurd hself (by decide)

theorem mixedEvents_direct : ∃ ponged r calls route,
    handleAll (Router.init 2 1 .dv) (mixedEvents.take 2) = some ponged ∧
    handle (sampleEnv 20) ponged (.packet 0 twoRoutes) = some (r, calls) ∧
    r.routingTable.get? 20 = some route ∧ route.cost ≤ 10 := by
  have hrun : ((handleAll (Router.init 2 1 .dv) (mixedEvents.take 2)).bind fun ponged =>
      (handle (sampleEnv 20) ponged (.packet 0 twoRoutes)).map fun out =>
        (ponged.routingTable.get? 20, ponged.neighborTable.get? 30, out.1.neighborTable.get? 20)) =
      some (some ⟨10, 20⟩, none, some ⟨10, 1, 15010⟩) := by decide +kernel
  obtain ⟨ponged, hponged, hrun⟩ := Option.bind_eq_some_iff.mp hrun
  obtain ⟨⟨r, calls⟩, hhandle, heq⟩ := Option.map_eq_some_iff.mp hrun
  simp only [Prod.mk.injEq] at heq
  obtain ⟨hroute, hfar, hlink⟩ := heq
  have hpongs : ∀ e ∈ mixedEvents.take 2, DvEvent twoPorts 2 e.2 ∧ ∀ env r, ¬ DetourEvent env r e.2 := by
    rintro _ (_ | ⟨_, _ | ⟨_, ⟨⟩⟩⟩)
    · exact ⟨mixedEvents_events _ (by simp [mixedEvents]), fun _ _ h => absurd h.1 (by decide)⟩
    · exact ⟨mixedEvents_events _ (by simp [mixedEvents]), fun _ _ h => absurd h.1 (by decide)⟩
  have hreaches :=
    @handleAll_reaches (fun event => DvEvent twoPorts 2 event ∧ ∀ env r, ¬ DetourEvent env r event)
    _ _ _ hpongs hponged
  have hstart : Relation.ReflTransGen (StraightStep twoPorts 2) (Router.init 2 1 .dv) ponged := by
    refine hreaches.lift id fun s s' hstep => ?_
    obtain ⟨env, event, calls, hevent, hhandle⟩ := hstep
    exact ⟨env, event, calls, hevent.1, hevent.2 env s, hhandle⟩
  have hlast : StraightStep twoPorts 2 ponged r :=
    ⟨_, _, _, mixedEvents_events (sampleEnv 20, .packet 0 twoRoutes) (by simp [mixedEvents]),
      fun h => twoRoutes_straight hroute hfar h.2, hhandle⟩
  obtain ⟨route, hroute', hcost⟩ := (straight_run_noDetour twoPorts_attached (hstart.tail hlast)).1 20 _ hlink
  exact ⟨ponged, r, calls, route, hponged, hhandle, hroute', hcost⟩

/-- Router 10 is a neighbour at cost 1, router 20 one at cost 10. Router 10 first advertises 20 at
cost 2, then at cost 50. -/
def detourEvents : List (Env × Event) :=
  [(sampleEnv 1, .packet 0 firstPong),
    (sampleEnv 10, .packet 1 (samplePacket [(0, 2), (5, 20), (7, 1)] 12)),
    (sampleEnv 20, .packet 0 (samplePacket [(0, 3), (5, 10), (9, 20), (11, 2)] 12)),
    (sampleEnv 30, .packet 0 (samplePacket [(0, 3), (5, 10), (9, 20), (11, 50)] 12))]

theorem detour_reached :
    Attached twoPorts 2 1 ∧ ∃ r link route, DvReachable twoPorts 2 1 r ∧
      r.neighborTable.get? 20 = some link ∧ r.routingTable.get? 20 = some route ∧
      link.cost = 10 ∧ route.cost = 51 := by
  have hevents : ∀ e ∈ detourEvents, DvEvent twoPorts 2 e.2 := by decide +kernel
  have hrun : (handleAll (Router.init 2 1 .dv) detourEvents).map
      (fun r => (r.neighborTable.get? 20, r.routingTable.get? 20)) =
      some (some ⟨10, 1, 15010⟩, some ⟨51, 10⟩) := by decide +kernel
  obtain ⟨r, hr, heq⟩ := Option.map_eq_some_iff.mp hrun
  obtain ⟨hlink, hroute⟩ := Prod.mk.inj heq
  exact ⟨twoPorts_attached, r, _, _, handleAll_reaches hevents hr, hlink, hroute, rfl, rfl⟩

end Comp556.Dv
