import Comp556.Foundation.Walk
import Comp556.Routing.DvExchange

/-!
# Stable distance-vector tables

A network of routers whose tables no exchange of advertisements changes any more. Its recorded
costs satisfy Bellman's equations, with poison reverse hiding only entries that need no check.
-/

namespace Comp556.Dv

open Router

/-- Routers by their ids, and the router behind each port of each router. -/
structure Network where
  routers : Table UInt16 Router
  attached : UInt16 → UInt16 → UInt16

namespace Network

/-- There is a link of cost `c` from `a` to `b`. -/
def Edge (net : Network) (a b : UInt16) (c : Nat) : Prop :=
  ∃ r link, net.routers.get? a = some r ∧ r.neighborTable.get? b = some link ∧ c = link.cost.toNat

theorem Edge.source {net : Network} {a b : UInt16} {c : Nat} (h : net.Edge a b c) :
    ∃ r, net.routers.get? a = some r := by
  obtain ⟨r, _, hr, -⟩ := h
  exact ⟨r, hr⟩

/-- `recv_data` of router `a` sends the packet out at the port that leads to `b`. -/
def Hop (net : Network) (packet : Packet) (a b : UInt16) : Prop :=
  ∃ r port, net.routers.get? a = some r ∧ recvData packet r = [.send port packet] ∧
    net.attached a port = b

/-- Links are symmetric and cost at least 1, costs leave room for one addition, and every router
has routes to its neighbours, over its neighbours, and not to itself. -/
structure Proper (net : Network) : Prop where
  routerId : ∀ a r, net.routers.get? a = some r → r.routerId = a
  ports : ∀ a r, net.routers.get? a = some r → PortsMatch (net.attached a) r
  symmetric : ∀ a b r link, net.routers.get? a = some r → r.neighborTable.get? b = some link →
    ∃ r' back, net.routers.get? b = some r' ∧ r'.neighborTable.get? a = some back ∧
      back.cost = link.cost
  link_cost : ∀ a b r link, net.routers.get? a = some r → r.neighborTable.get? b = some link →
    0 < link.cost.toNat ∧ link.cost.toNat < 16384
  route_cost : ∀ a d r route, net.routers.get? a = some r → r.routingTable.get? d = some route →
    route.cost.toNat < 16384
  neighbor : ∀ a b r link, net.routers.get? a = some r → r.neighborTable.get? b = some link →
    (r.routingTable.get? b).isSome
  no_self : ∀ a r, net.routers.get? a = some r → r.routingTable.get? a = none
  hop : ∀ a d r route, net.routers.get? a = some r → r.routingTable.get? d = some route →
    (r.neighborTable.get? route.nextHop).isSome

end Network

/-- The packet of `s` makes `r` set a new deadline for `d` in the place of another. -/
def Renews (envS env : Env) (s r : Router) (port d : UInt16) : Prop :=
  ∃ time, time ≠ renewed env ∧
    ∃ r' calls, recv env port (dvPacket envS s r.routerId).block.memory (dvPacket envS s r.routerId).size
      { r with dvTime := r.dvTime.insert env.layout d time } = some (r', calls) ∧
    r'.dvTime.get? d = some (renewed env)

/-- Neither the packet that `s` builds for its neighbour `r` nor a new measurement of the link
changes a route of `r`, and the packet renews every route of `r` that goes on through `s`. The
packet has a meaning only if `s` builds it within the block it allocates. -/
structure StableLink (envS env : Env) (s r : Router) (link : Link) : Prop where
  built : (dvPacket envS s r.routerId).block.InBounds
  recv_same : ∃ r' calls, recv env link.port (dvPacket envS s r.routerId).block.memory
      (dvPacket envS s r.routerId).size r = some (r', calls) ∧
    ∀ d, r'.routingTable.get? d = r.routingTable.get? d
  renews : ∀ d, RoutesVia r d s.routerId → d ≠ s.routerId → Renews envS env s r link.port d
  update_same : ∀ route, r.routingTable.get? s.routerId = some route →
    ∀ d, (update env s.routerId link.cost route.cost r).routingTable.get? d = r.routingTable.get? d

def Network.Stable (net : Network) (env : UInt16 → Env) : Prop :=
  ∀ a b r s link, net.routers.get? a = some r → net.routers.get? b = some s →
    r.neighborTable.get? b = some link → StableLink (env b) (env a) s r link

section Entry

variable {env : Env} {sourceId totalCost : UInt16}

private theorem learned_same {entry : Option Route × Option UInt32}
    (h : (learned env sourceId totalCost entry).1 = entry.1) :
    ∃ route, entry.1 = some route ∧ route.cost ≤ totalCost := by
  obtain ⟨_ | route, time⟩ := entry
  · cases h
  · refine ⟨route, rfl, ?_⟩
    simp only [learned] at h
    split at h
    · have hroute := Option.some.inj h
      rw [← hroute]
      exact UInt16.le_refl _
    · rename_i hcond
      exact UInt16.not_lt.mp (not_or.mp hcond).2

private theorem learned_same_via {route : Route} {time : Option UInt32} (hhop : route.nextHop = sourceId)
    (h : (learned env sourceId totalCost (some route, time)).1 = some route) :
    route.cost = totalCost := by
  simp only [learned, hhop, true_and] at h
  split at h
  · rw [← Option.some.inj h]
  · rename_i hcond
    simpa using (not_or.mp hcond).1

theorem received_of_ne {routerId c back d : UInt16} (listed : Option UInt16)
    (entry : Option Route × Option UInt32) (hsource : d ≠ sourceId) (hself : d ≠ routerId) :
    received env routerId sourceId c back listed d entry =
      match listed with
      | none => entry
      | some a => if a = infinityCost then entry else learned env sourceId (a + c) entry := by
  have hpreferred : preferred sourceId back d entry = entry := by
    obtain ⟨_ | route, time⟩ := entry <;> simp [preferred, hsource]
  cases listed <;> simp [received, hpreferred, hself]

end Entry

namespace StableLink

variable {envS env : Env} {s r : Router} {link : Link}

theorem direct (h : StableLink envS env s r link) (hlink : r.neighborTable.get? s.routerId = some link)
    {route : Route} (hroute : r.routingTable.get? s.routerId = some route)
    (hcost : route.cost.toNat < 16384) (hlinkCost : link.cost.toNat < 16384) :
    route.cost ≤ link.cost ∧ (route.nextHop = s.routerId → route.cost = link.cost) := by
  by_cases htakes : takesOver s.routerId link.cost route
  · have heffect := (update_effect env s.routerId link.cost route.cost r route hroute htakes).2 s.routerId
    have hsame := h.update_same route hroute s.routerId
    rw [if_pos rfl] at heffect
    rw [hroute] at hsame
    simp only [adjusted, hlink, if_true] at heffect
    have heq : route.cost = link.cost := by
      split at heffect
      · exact congrArg Route.cost (Option.some.inj (hsame.symm.trans (entryAt_route heffect)))
      · have hroute' := Option.some.inj (hsame.symm.trans (entryAt_route heffect))
        have hsum : route.cost.toNat = (link.cost + (link.cost - route.cost)).toNat := by
          nth_rewrite 1 [hroute']
          rfl
        rw [UInt16.toNat_add, UInt16.toNat_sub] at hsum
        apply UInt16.toNat_inj.mp
        omega
    exact ⟨heq ▸ UInt16.le_refl _, fun _ => heq⟩
  · obtain ⟨hhop, hlt⟩ := not_or.mp htakes
    exact ⟨UInt16.not_lt.mp hlt, fun heq => absurd heq hhop⟩

theorem relaxed (h : StableLink envS env s r link) (hport : r.portTable.get? link.port = some s.routerId)
    (hlink : r.neighborTable.get? s.routerId = some link) {d : UInt16} (hself : d ≠ r.routerId)
    (hsource : d ≠ s.routerId) {theirs : Route} (htheirs : s.routingTable.get? d = some theirs)
    (hopen : theirs.nextHop ≠ r.routerId) (hcost : theirs.cost.toNat < 16384)
    (hlinkCost : link.cost.toNat < 16384) :
    ∃ route, r.routingTable.get? d = some route ∧
      route.cost.toNat ≤ theirs.cost.toNat + link.cost.toNat := by
  obtain ⟨r', calls, hrun, hsame⟩ := h.recv_same
  obtain ⟨_, _, hrun', _, heffect⟩ := recv_dvPacket envS env hport hlink
  obtain ⟨rfl, -⟩ := Prod.mk.inj (Option.some.inj (hrun.symm.trans hrun'))
  have hlisted := readTable_of_inBounds envS s r.routerId env h.built d
  rw [htheirs, Option.map_some, announcedCost_of_ne hopen] at hlisted
  have hentry := heffect d
  rw [received_of_ne _ _ hsource hself, hlisted] at hentry
  have hfinite : theirs.cost ≠ infinityCost := by
    intro heq
    rw [heq] at hcost
    exact absurd hcost (by decide)
  simp only [hfinite, if_false] at hentry
  obtain ⟨route, hroute, hle⟩ := learned_same ((congrArg Prod.fst hentry).symm.trans (hsame d))
  refine ⟨route, hroute, ?_⟩
  have hsum := UInt16.le_iff_toNat_le.mp hle
  rw [UInt16.toNat_add] at hsum
  omega

private theorem listed_of_renews (hport : r.portTable.get? link.port = some s.routerId)
    (hlink : r.neighborTable.get? s.routerId = some link) {d : UInt16} (hself : d ≠ r.routerId)
    (hsource : d ≠ s.routerId) (hrenews : Renews envS env s r link.port d) :
    ∃ a, (readTable env (dvPacket envS s r.routerId).block.memory
      (dvPacket envS s r.routerId).size).get? d = some a ∧ a ≠ infinityCost := by
  obtain ⟨time, hother, r', calls, hrun, hnew⟩ := hrenews
  obtain ⟨_, _, hrun', _, heffect⟩ := recv_dvPacket (s := s)
    (r := { r with dvTime := r.dvTime.insert env.layout d time }) envS env hport hlink
  obtain ⟨rfl, -⟩ := Prod.mk.inj (Option.some.inj (hrun.symm.trans hrun'))
  have hentry := heffect d
  rw [received_of_ne _ _ hsource hself] at hentry
  have hchanged : entryAt r' d ≠ entryAt { r with dvTime := r.dvTime.insert env.layout d time } d := by
    intro heq
    have htime := hnew.symm.trans (congrArg Prod.snd heq)
    simp only [entryAt, Table.get?_insert_self, Option.some.injEq] at htime
    exact hother htime.symm
  split at hentry
  · exact absurd hentry hchanged
  · rename_i a hlisted
    split at hentry
    · exact absurd hentry hchanged
    · rename_i hfinite
      exact ⟨a, hlisted, hfinite⟩

theorem through (h : StableLink envS env s r link) (hport : r.portTable.get? link.port = some s.routerId)
    (hlink : r.neighborTable.get? s.routerId = some link) {d : UInt16} (hself : d ≠ r.routerId)
    (hsource : d ≠ s.routerId) {route : Route} (hroute : r.routingTable.get? d = some route)
    (hhop : route.nextHop = s.routerId)
    (hcost : ∀ theirs, s.routingTable.get? d = some theirs → theirs.cost.toNat < 16384)
    (hlinkCost : link.cost.toNat < 16384) :
    ∃ theirs, s.routingTable.get? d = some theirs ∧
      route.cost.toNat = theirs.cost.toNat + link.cost.toNat := by
  obtain ⟨a, hlisted, hfinite⟩ := listed_of_renews hport hlink hself hsource
    (h.renews d ⟨route, hroute, hhop⟩ hsource)
  obtain ⟨theirs, htheirs, ha⟩ := readTable_dvPacket envS s r.routerId hlisted
  have hopen : theirs.nextHop ≠ r.routerId := fun hback =>
    hfinite (ha.trans (announcedCost_of_back hback hself))
  rw [announcedCost_of_ne hopen] at ha
  refine ⟨theirs, htheirs, ?_⟩
  obtain ⟨r', calls, hrun, hsame⟩ := h.recv_same
  obtain ⟨_, _, hrun', _, heffect⟩ := recv_dvPacket envS env hport hlink
  obtain ⟨rfl, -⟩ := Prod.mk.inj (Option.some.inj (hrun.symm.trans hrun'))
  have hentry := heffect d
  rw [received_of_ne _ _ hsource hself, hlisted] at hentry
  simp only [hfinite, if_false] at hentry
  have hlearned := (congrArg Prod.fst hentry).symm.trans (hsame d)
  have hentry₀ : entryAt r d = (some route, r.dvTime.get? d) := by rw [entryAt, hroute]
  rw [hentry₀, hroute] at hlearned
  have heq := learned_same_via hhop hlearned
  have hlt := hcost theirs htheirs
  rw [heq, ha, UInt16.toNat_add]
  omega

end StableLink

namespace Network

variable {net : Network} {env : UInt16 → Env}

/-- What router `u` records as the cost to `d`. -/
def costTo (net : Network) (d u : UInt16) : Option Nat :=
  if u = d then some 0
  else (net.routers.get? u).bind fun r => (r.routingTable.get? d).map fun route => route.cost.toNat

theorem costTo_of_ne {d u : UInt16} (hne : u ≠ d) (n : Nat) :
    net.costTo d u = some n ↔ ∃ r route, net.routers.get? u = some r ∧
      r.routingTable.get? d = some route ∧ route.cost.toNat = n := by
  simp [costTo, hne, Option.bind_eq_some_iff]

theorem Proper.farEnd (hnet : net.Proper) (hstable : net.Stable env) {a b : UInt16} {r : Router}
    {link : Link} (hr : net.routers.get? a = some r) (hlink : r.neighborTable.get? b = some link) :
    ∃ s, net.routers.get? b = some s ∧ s.routerId = b ∧ r.portTable.get? link.port = some s.routerId ∧
      r.neighborTable.get? s.routerId = some link ∧ StableLink (env b) (env a) s r link ∧
      (s.neighborTable.get? a).isSome := by
  obtain ⟨s, back, hs, hback, _⟩ := hnet.symmetric a b r link hr hlink
  have hid := hnet.routerId b s hs
  refine ⟨s, hs, hid, ?_, by rw [hid]; exact hlink, hstable a b r s link hr hs hlink, by simp [hback]⟩
  rw [hid]
  exact (hnet.ports a r hr).linked b link hlink

/-- No link leads to a cheaper path: an entry that poison reverse hides was itself learned from the
router it is hidden from. -/
theorem Stable.relaxed (hstable : net.Stable env) (hnet : net.Proper) {d u v : UInt16} {c n : Nat}
    (hedge : net.Edge u v c) (hn : net.costTo d v = some n) :
    ∃ m, net.costTo d u = some m ∧ m ≤ c + n := by
  obtain ⟨r, link, hr, hlink, rfl⟩ := hedge
  obtain ⟨s, hs, hid, hport, hlink', hlinkStable, hback⟩ := hnet.farEnd hstable hr hlink
  have hrid := hnet.routerId u r hr
  have hlinkCost := hnet.link_cost u v r link hr hlink
  by_cases hud : u = d
  · exact ⟨0, by simp [costTo, hud], Nat.zero_le _⟩
  have hfound {route : Route} (hroute : r.routingTable.get? d = some route) :
      net.costTo d u = some route.cost.toNat := (costTo_of_ne hud _).mpr ⟨r, route, hr, hroute, rfl⟩
  by_cases hvd : v = d
  · subst hvd
    obtain ⟨route, hroute⟩ := Option.isSome_iff_exists.mp (hnet.neighbor u v r link hr hlink)
    have hdirect := hlinkStable.direct hlink' (by rw [hid]; exact hroute)
      (hnet.route_cost u v r route hr hroute) hlinkCost.2
    exact ⟨_, hfound hroute, by have := UInt16.le_iff_toNat_le.mp hdirect.1; omega⟩
  obtain ⟨s', theirs, hs', htheirs, rfl⟩ := (costTo_of_ne hvd n).mp hn
  obtain rfl := Option.some.inj (hs.symm.trans hs')
  by_cases hopen : theirs.nextHop = r.routerId
  · -- hidden: the far end goes through `u`, so it has added the link to the cost of `u`
    obtain ⟨back, hback⟩ := Option.isSome_iff_exists.mp hback
    obtain ⟨r', hr', hid', hport', hlink'', hbackStable, _⟩ := hnet.farEnd hstable hs hback
    obtain rfl := Option.some.inj (hr.symm.trans hr')
    obtain ⟨route, hroute, hcost⟩ := hbackStable.through hport' hlink'' (by rw [hid]; exact Ne.symm hvd)
      (by rw [hrid]; exact Ne.symm hud) htheirs hopen
      (fun route hroute => hnet.route_cost u d r route hr hroute)
      (hnet.link_cost v u s back hs hback).2
    exact ⟨_, hfound hroute, by omega⟩
  · obtain ⟨route, hroute, hle⟩ := hlinkStable.relaxed hport hlink' (by rw [hrid]; exact Ne.symm hud)
      (by rw [hid]; exact Ne.symm hvd) htheirs hopen (hnet.route_cost v d s theirs hs htheirs)
      hlinkCost.2
    exact ⟨_, hfound hroute, by omega⟩

theorem Stable.step (hstable : net.Stable env) (hnet : net.Proper) {packet : Packet} {d u : UInt16}
    (hdest : ntohs (packet.block.memory.load16 6) = d) {n : Nat} (hud : u ≠ d)
    (hn : net.costTo d u = some n) :
    ∃ v c m, net.Hop packet u v ∧ net.Edge u v c ∧ 0 < c ∧ net.costTo d v = some m ∧ n = c + m := by
  obtain ⟨r, route, hr, hroute, rfl⟩ := (costTo_of_ne hud n).mp hn
  have hrid := hnet.routerId u r hr
  obtain ⟨link, hlink⟩ := Option.isSome_iff_exists.mp (hnet.hop u d r route hr hroute)
  obtain ⟨s, hs, hid, hport, hlink', hlinkStable, _⟩ := hnet.farEnd hstable hr hlink
  have hlinkCost := hnet.link_cost u route.nextHop r link hr hlink
  have hhop : net.Hop packet u route.nextHop := by
    refine ⟨r, link.port, hr, ?_, ((hnet.ports u r hr).attached_of_link hlink).2⟩
    have hne : d ≠ r.routerId := by rw [hrid]; exact Ne.symm hud
    simp [recvData, hdest, hne, hroute, hlink]
  have hedge : net.Edge u route.nextHop link.cost.toNat := ⟨r, link, hr, hlink, rfl⟩
  by_cases hvd : route.nextHop = d
  · have hroute' : r.routingTable.get? s.routerId = some route := by rw [hid, hvd]; exact hroute
    have hdirect := (hlinkStable.direct hlink' hroute' (hnet.route_cost u d r route hr hroute)
      hlinkCost.2).2 hid.symm
    exact ⟨route.nextHop, _, 0, hhop, hedge, hlinkCost.1, by simp [costTo, hvd], by rw [hdirect]; rfl⟩
  · obtain ⟨theirs, htheirs, hcost⟩ := hlinkStable.through hport hlink'
      (by rw [hrid]; exact Ne.symm hud) (by rw [hid]; exact Ne.symm hvd) hroute hid.symm
      (fun theirs htheirs => hnet.route_cost route.nextHop d s theirs hs htheirs) hlinkCost.2
    exact ⟨route.nextHop, _, theirs.cost.toNat, hhop, hedge, hlinkCost.1,
      (costTo_of_ne hvd _).mpr ⟨s, theirs, hs, htheirs, rfl⟩, by omega⟩

theorem Stable.bellman (hstable : net.Stable env) (hnet : net.Proper) {packet : Packet} {d : UInt16}
    (hdest : ntohs (packet.block.memory.load16 6) = d) :
    Bellman (net.Hop packet) net.Edge d (net.costTo d) where
  target := by simp [costTo]
  step _ _ hud hn := hstable.step hnet hdest hud hn
  relaxed _ _ _ _ hedge hn := hstable.relaxed hnet hedge hn

def packetTo (d : UInt16) : Packet := ⟨(Buffer.malloc (fun _ => 0) 8).store16 6 (htons d), 8⟩

theorem packetTo_dest (d : UInt16) : ntohs ((packetTo d).block.memory.load16 6) = d := by
  rw [packetTo, Buffer.load16_store16, ntohs_htons]

/-- In a stable network a router records exactly the routers connected to it, each at its distance, and a
data packet follows the next hops to its destination along a walk of that length, through no router twice. -/
theorem stable_shortest (hnet : net.Proper) (hstable : net.Stable env) {a : UInt16} {r : Router}
    (hr : net.routers.get? a = some r) :
    (∀ d, d ∈ r.routingTable.keys ↔ d ≠ a ∧ ∃ n, Walk net.Edge a d n) ∧
      ∀ d route, r.routingTable.get? d = some route →
        IsDistance net.Edge a d route.cost.toNat ∧
        ∀ packet, ntohs (packet.block.memory.load16 6) = d →
          (∃ path, Trail (net.Hop packet) net.Edge a d path route.cost.toNat ∧ path.Nodup) ∧
          ∀ s, net.routers.get? d = some s → recvData packet s = [] := by
  constructor
  · intro d
    have hreaches := (hstable.bellman hnet (packetTo_dest d)).reaches_iff a
    rw [Table.mem_keys_iff]
    constructor
    · intro hkey
      have hne : d ≠ a := by
        intro heq
        subst heq
        simp [hnet.no_self d r hr] at hkey
      obtain ⟨route, hroute⟩ := Option.isSome_iff_exists.mp hkey
      have hcost := (costTo_of_ne (Ne.symm hne) _).mpr ⟨r, route, hr, hroute, rfl⟩
      exact ⟨hne, hreaches.mpr (by simp [hcost])⟩
    · rintro ⟨hne, hwalk⟩
      obtain ⟨n, hn⟩ := Option.isSome_iff_exists.mp (hreaches.mp hwalk)
      obtain ⟨r', route, hr', hroute, -⟩ := (costTo_of_ne (Ne.symm hne) n).mp hn
      obtain rfl := Option.some.inj (hr.symm.trans hr')
      simp [hroute]
  · intro d route hroute
    have hne : a ≠ d := by
      intro heq
      subst heq
      simp [hnet.no_self a r hr] at hroute
    have hcost := (costTo_of_ne hne _).mpr ⟨r, route, hr, hroute, rfl⟩
    refine ⟨(hstable.bellman hnet (packetTo_dest d)).isDistance hcost, fun packet hdest => ⟨?_, ?_⟩⟩
    · obtain ⟨path, htrail, hnodup, -⟩ := (hstable.bellman hnet hdest).trail hcost
      exact ⟨path, htrail, hnodup⟩
    · intro s hs
      simp [recvData, hdest, hnet.routerId d s hs]

end Network

private theorem StableLink.of_checks {envS env : Env} {s r : Router} {link : Link}
    (hbuilt : (dvPacket envS s r.routerId).block.InBounds)
    (hrecv : (recv env link.port (dvPacket envS s r.routerId).block.memory
      (dvPacket envS s r.routerId).size r).any fun out =>
        out.1.routingTable.entries = r.routingTable.entries)
    (hrenewed : ∀ e ∈ r.routingTable.entries, e.2.nextHop = s.routerId → e.1 ≠ s.routerId →
      0 ≠ renewed env ∧
        (recv env link.port (dvPacket envS s r.routerId).block.memory (dvPacket envS s r.routerId).size
          { r with dvTime := r.dvTime.insert env.layout e.1 0 }).any fun out =>
            out.1.dvTime.get? e.1 = some (renewed env))
    (hupdate : ∀ e ∈ r.routingTable.entries, e.1 = s.routerId →
      (update env s.routerId link.cost e.2.cost r).routingTable.entries = r.routingTable.entries) :
    StableLink envS env s r link where
  built := hbuilt
  recv_same := by
    obtain ⟨out, hrun, hsame⟩ := (Option.any_eq_true _ _).mp hrecv
    have hentries := of_decide_eq_true hsame
    exact ⟨out.1, out.2, hrun, fun d => by rw [Table.get?, hentries, Table.get?]⟩
  renews := by
    rintro d ⟨route, hroute, hhop⟩ hd
    obtain ⟨hother, hrun⟩ :=
      hrenewed (d, route) ((r.routingTable.mem_entries_iff d route).mpr hroute) hhop hd
    obtain ⟨out, hrun, hnew⟩ := (Option.any_eq_true _ _).mp hrun
    exact ⟨0, hother, out.1, out.2, hrun, of_decide_eq_true hnew⟩
  update_same := by
    intro route hroute d
    have hsame := hupdate (s.routerId, route) ((r.routingTable.mem_entries_iff _ _).mpr hroute) rfl
    rw [Table.get?, hsame, Table.get?]

def rowRouter (routerId : UInt16) (links : NeighborTable) (ports : PortTable) (routes : RoutingTable) :
    Router :=
  { Router.init 2 routerId .dv with
    neighborTable := links
    portTable := ports
    routingTable := routes
    dvTime := routes.mapValues fun _ => 45000 }

def rowLeft : Router :=
  rowRouter 1 ⟨[(2, ⟨1, 0, 15000⟩)], by decide⟩ ⟨[(0, 2)], by decide⟩
    ⟨[(2, ⟨1, 2⟩), (3, ⟨3, 2⟩)], by decide⟩

def rowMiddle : Router :=
  rowRouter 2 ⟨[(1, ⟨1, 0, 15000⟩), (3, ⟨2, 1, 15000⟩)], by decide⟩ ⟨[(0, 1), (1, 3)], by decide⟩
    ⟨[(1, ⟨1, 1⟩), (3, ⟨2, 3⟩)], by decide⟩

def rowRight : Router :=
  rowRouter 3 ⟨[(2, ⟨2, 0, 15000⟩)], by decide⟩ ⟨[(0, 2)], by decide⟩
    ⟨[(2, ⟨2, 2⟩), (1, ⟨3, 2⟩)], by decide⟩

def row : Network where
  routers := ⟨[(1, rowLeft), (2, rowMiddle), (3, rowRight)], by decide⟩
  attached a port := if a = 2 ∧ port = 0 then 1 else if a = 2 then 3 else 2

private theorem row_checks : ∀ x ∈ row.routers.entries,
    x.2.routerId = x.1 ∧ x.2.routingTable.get? x.1 = none ∧
    (∀ e ∈ x.2.neighborTable.entries,
      0 < e.2.cost.toNat ∧ e.2.cost.toNat < 16384 ∧ (x.2.routingTable.get? e.1).isSome ∧
      x.2.portTable.get? e.2.port = some e.1 ∧
      (row.routers.get? e.1).any fun s => (s.neighborTable.get? x.1).any fun back =>
        back.cost = e.2.cost) ∧
    (x.2.portTable.entries.Forall fun e => e.1 < x.2.numPorts ∧ row.attached x.1 e.1 = e.2 ∧
      (x.2.neighborTable.get? e.2).any fun link => link.port = e.1) ∧
    ∀ e ∈ x.2.routingTable.entries, e.2.cost.toNat < 16384 ∧
      (x.2.neighborTable.get? e.2.nextHop).isSome := by
  decide +kernel

private theorem row_proper : row.Proper where
  routerId _ _ hr := (row_checks _ ((Table.mem_entries_iff ..).mpr hr)).1
  no_self _ _ hr := (row_checks _ ((Table.mem_entries_iff ..).mpr hr)).2.1
  link_cost _ _ _ _ hr hlink :=
    have hchecks := (row_checks _ ((Table.mem_entries_iff ..).mpr hr)).2.2.1 _
      ((Table.mem_entries_iff ..).mpr hlink)
    ⟨hchecks.1, hchecks.2.1⟩
  neighbor _ _ _ _ hr hlink :=
    ((row_checks _ ((Table.mem_entries_iff ..).mpr hr)).2.2.1 _
      ((Table.mem_entries_iff ..).mpr hlink)).2.2.1
  symmetric _ _ _ _ hr hlink := by
    have hback := ((row_checks _ ((Table.mem_entries_iff ..).mpr hr)).2.2.1 _
      ((Table.mem_entries_iff ..).mpr hlink)).2.2.2.2
    obtain ⟨s, hs, hany⟩ := (Option.any_eq_true _ _).mp hback
    obtain ⟨back, hback, hcost⟩ := (Option.any_eq_true _ _).mp hany
    exact ⟨s, back, hs, hback, of_decide_eq_true hcost⟩
  ports _ r hr := by
    have hchecks := (row_checks _ ((Table.mem_entries_iff ..).mpr hr)).2.2
    constructor
    · intro p n hp
      obtain ⟨hlt, hat, hany⟩ := List.forall_iff_forall_mem.mp hchecks.2.1 _
        ((Table.mem_entries_iff ..).mpr hp)
      obtain ⟨link, hlink, hport⟩ := (Option.any_eq_true _ _).mp hany
      exact ⟨hlt, hat, link, hlink, of_decide_eq_true hport⟩
    · intro n link hlink
      exact (hchecks.1 _ ((Table.mem_entries_iff ..).mpr hlink)).2.2.2.1
  route_cost _ _ _ _ hr hroute :=
    ((row_checks _ ((Table.mem_entries_iff ..).mpr hr)).2.2.2.2 _
      ((Table.mem_entries_iff ..).mpr hroute)).1
  hop _ _ _ _ hr hroute :=
    ((row_checks _ ((Table.mem_entries_iff ..).mpr hr)).2.2.2.2 _
      ((Table.mem_entries_iff ..).mpr hroute)).2

private theorem row_stable : row.Stable fun _ => sampleEnv 7 := by
  have hchecks : ∀ x ∈ row.routers.entries, ∀ y ∈ row.routers.entries,
      ∀ e ∈ x.2.neighborTable.entries, e.1 = y.1 →
        (dvPacket (sampleEnv 7) y.2 x.2.routerId).block.InBounds ∧
        ((recv (sampleEnv 7) e.2.port (dvPacket (sampleEnv 7) y.2 x.2.routerId).block.memory
          (dvPacket (sampleEnv 7) y.2 x.2.routerId).size x.2).any fun out =>
            out.1.routingTable.entries = x.2.routingTable.entries) ∧
        (∀ f ∈ x.2.routingTable.entries, f.2.nextHop = y.2.routerId → f.1 ≠ y.2.routerId →
          0 ≠ renewed (sampleEnv 7) ∧
            (recv (sampleEnv 7) e.2.port (dvPacket (sampleEnv 7) y.2 x.2.routerId).block.memory
              (dvPacket (sampleEnv 7) y.2 x.2.routerId).size
              { x.2 with dvTime := x.2.dvTime.insert (sampleEnv 7).layout f.1 0 }).any fun out =>
                out.1.dvTime.get? f.1 = some (renewed (sampleEnv 7))) ∧
        ∀ f ∈ x.2.routingTable.entries, f.1 = y.2.routerId →
          (update (sampleEnv 7) y.2.routerId e.2.cost f.2.cost x.2).routingTable.entries =
            x.2.routingTable.entries := by
    decide +kernel
  intro a b r s link hr hs hlink
  obtain ⟨hbuilt, hrecv, hrenewed, hupdate⟩ := hchecks _ ((Table.mem_entries_iff ..).mpr hr) _
    ((Table.mem_entries_iff ..).mpr hs) _ ((Table.mem_entries_iff ..).mpr hlink) rfl
  exact .of_checks hbuilt hrecv hrenewed hupdate

theorem row_shortest : IsDistance row.Edge 1 3 3 :=
  ((Network.stable_shortest row_proper row_stable (a := 1) (r := rowLeft) rfl).2 3 ⟨3, 2⟩
    (by decide)).1

end Comp556.Dv
