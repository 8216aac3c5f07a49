import Comp556.Routing.DvFixpoint
import Comp556.Routing.LsCoherence
import Comp556.Routing.LsShortest

/-!
# Forwarding along shortest paths

Link-state routers that hold the same graph compute their forwarding tables apart. A path that a
router found without returning to itself is a shortest one in the whole graph, so the costs towards
one destination satisfy Bellman's equations.
-/

namespace Comp556.Ls

open Router
open Dv (Network)

def linkItems (graph : Graph) : List (UInt16 × UInt16 × Nat) :=
  graph.entries.flatMap fun row => (row.2.entries.filter fun e => row.1 < e.1).map fun e =>
    (row.1, e.1, e.2.cost.toNat)

def totalLinks (graph : Graph) : Nat := ((linkItems graph).map fun e => e.2.2).sum

/-- Every router of the network holds the same symmetric graph of positive costs, has the edges at
itself as its neighbours, and has rebuilt its forwarding table. -/
structure SharesGraph (net : Network) (graph : Graph) : Prop where
  routerId : ∀ a r, net.routers.get? a = some r → r.routerId = a
  ports : ∀ a r, net.routers.get? a = some r → PortsMatch (net.attached a) r
  same : ∀ a r, net.routers.get? a = some r → ∀ x y,
    (edgeAt r.graph x y).map Edge.cost = (edgeAt graph x y).map Edge.cost
  neighbors : ∀ a r, net.routers.get? a = some r → ∀ b,
    (r.neighborTable.get? b).map Link.cost = (edgeAt graph a b).map Edge.cost
  rebuilt : ∀ a r, net.routers.get? a = some r → ∃ env before, r = updateForwardingTable env before
  symmetric : ∀ x y, (edgeAt graph x y).map Edge.cost = (edgeAt graph y x).map Edge.cost
  positive : ∀ x y edge, edgeAt graph x y = some edge → 0 < edge.cost.toNat
  routers : ∀ x y edge, edgeAt graph x y = some edge → (net.routers.get? y).isSome

variable {net : Network} {graph : Graph} {a : UInt16} {r : Router}

private theorem cost_of_map {x y : Option Edge} (h : x.map Edge.cost = y.map Edge.cost) {edge : Edge}
    (hedge : x = some edge) : ∃ edge', y = some edge' ∧ edge'.cost = edge.cost := by
  rw [hedge, Option.map_some, eq_comm, Option.map_eq_some_iff] at h
  exact h

private theorem SharesGraph.edge_iff (hnet : SharesGraph net graph) (hr : net.routers.get? a = some r)
    (b : UInt16) (c : Nat) :
    net.Edge a b c ↔ ∃ edge, edgeAt graph a b = some edge ∧ edge.cost.toNat = c := by
  have hsame := hnet.neighbors a r hr b
  constructor
  · rintro ⟨r', link, hr', hlink, rfl⟩
    obtain rfl := Option.some.inj (hr.symm.trans hr')
    rw [hlink, Option.map_some, eq_comm, Option.map_eq_some_iff] at hsame
    obtain ⟨edge, hedge, hcost⟩ := hsame
    exact ⟨edge, hedge, by rw [hcost]⟩
  · rintro ⟨edge, hedge, rfl⟩
    rw [hedge, Option.map_some, Option.map_eq_some_iff] at hsame
    obtain ⟨link, hlink, hcost⟩ := hsame
    exact ⟨r, link, hr, hlink, by rw [hcost]⟩

theorem SharesGraph.onward_iff (hnet : SharesGraph net graph) (hr : net.routers.get? a = some r)
    (x y : UInt16) (w : Nat) :
    Onward r x y w ↔ x ≠ a ∧ y ≠ a ∧ ∃ edge, edgeAt graph x y = some edge ∧ edge.cost.toNat = w := by
  rw [Onward, hnet.routerId a r hr]
  refine and_congr_right fun _ => and_congr_right fun _ => ?_
  have hsame := hnet.same a r hr x y
  constructor
  · rintro ⟨edge, hedge, rfl⟩
    obtain ⟨edge', hedge', hcost⟩ := cost_of_map hsame hedge
    exact ⟨edge', hedge', by rw [hcost]⟩
  · rintro ⟨edge, hedge, rfl⟩
    obtain ⟨edge', hedge', hcost⟩ := cost_of_map hsame.symm hedge
    exact ⟨edge', hedge', by rw [hcost]⟩

private theorem SharesGraph.seed_iff (hnet : SharesGraph net graph) (hr : net.routers.get? a = some r)
    (v first : UInt16) (n : Nat) :
    LinkSeed r v first n ↔ first = v ∧ v ≠ a ∧ net.Edge a v n := by
  rw [LinkSeed, hnet.routerId a r hr]
  refine and_congr_right fun _ => and_congr_right fun _ => ?_
  constructor
  · rintro ⟨link, hlink, rfl⟩
    exact ⟨r, link, hr, hlink, rfl⟩
  · rintro ⟨r', link, hr', hlink, rfl⟩
    obtain rfl := Option.some.inj (hr.symm.trans hr')
    exact ⟨link, hlink, rfl⟩

private theorem mem_linkItems {x y : UInt16} {edge : Edge} (hedge : edgeAt graph x y = some edge)
    (hlt : x < y) :
    (x, y, edge.cost.toNat) ∈ linkItems graph := by
  obtain ⟨edges, hrow, hentry⟩ := (edgeAt_eq_some_iff ..).mp hedge
  refine List.mem_flatMap.mpr ⟨_, hrow, List.mem_map.mpr ⟨(y, edge), ?_, rfl⟩⟩
  exact List.mem_filter.mpr ⟨hentry, by simpa using hlt⟩

theorem SharesGraph.item (hnet : SharesGraph net graph) {x y : UInt16} {edge : Edge}
    (hedge : edgeAt graph x y = some edge) (hne : y ≠ x) :
    ∃ e ∈ linkItems graph, e.2.2 = edge.cost.toNat ∧ y ∈ [e.1, e.2.1] ∧
      ∀ z ∈ [e.1, e.2.1], z = y ∨ z = x := by
  rcases UInt16.lt_or_lt_of_ne hne.symm with hlt | hlt
  · exact ⟨_, mem_linkItems hedge hlt, rfl, by simp, by simp [or_comm]⟩
  · obtain ⟨edge', hedge', hcost⟩ := cost_of_map (hnet.symmetric x y) hedge
    exact ⟨_, mem_linkItems hedge' hlt, by rw [hcost], by simp, by simp⟩

theorem SharesGraph.fits (hnet : SharesGraph net graph) (htotal : totalLinks graph ≤ 65535)
    (hr : net.routers.get? a = some r) : Fits r := by
  intro path first n htour hnodup
  have hitems : Itemised (linkItems graph) (fun e => e.2.2) (fun e => [e.1, e.2.1]) [a] (LinkSeed r)
      (Onward r) := by
    constructor
    · intro v first n hseed
      obtain ⟨-, hv, hlink⟩ := (hnet.seed_iff hr v first n).mp hseed
      obtain ⟨edge, hedge, rfl⟩ := (hnet.edge_iff hr v n).mp hlink
      obtain ⟨e, he, hcost, hmem, hends⟩ := hnet.item hedge hv
      exact ⟨by simpa using hv, e, he, hcost, hmem, fun z hz => (hends z hz).imp_right fun h => by simp [h]⟩
    · intro x y w honward hne
      obtain ⟨-, hy, edge, hedge, rfl⟩ := (hnet.onward_iff hr x y w).mp honward
      obtain ⟨e, he, hcost, hmem, hends⟩ := hnet.item hedge hne
      exact ⟨by simpa using hy, e, he, hcost, hmem, hends⟩
  exact Nat.lt_succ_of_le ((hitems.tour_le htour hnodup).trans htotal)

variable {d : UInt16}

private theorem SharesGraph.edge_of_graph (hnet : SharesGraph net graph) {x y : UInt16} {edge : Edge}
    (hedge : edgeAt graph x y = some edge) : net.Edge x y edge.cost.toNat := by
  obtain ⟨back, hback, -⟩ := cost_of_map (hnet.symmetric x y) hedge
  obtain ⟨r, hr⟩ := Option.isSome_iff_exists.mp (hnet.routers y x back hback)
  exact (hnet.edge_iff hr y _).mpr ⟨edge, hedge, rfl⟩

private theorem SharesGraph.isSome_of_walk (hnet : SharesGraph net graph) {n : Nat} (h : Walk net.Edge a d n)
    (hd : d ≠ a) : (net.routers.get? d).isSome := by
  induction h with
  | nil => exact absurd rfl hd
  | @cons u v t c n hlink _ ih =>
    by_cases hv : t = v
    · subst hv
      obtain ⟨r, hr⟩ := hlink.source
      obtain ⟨edge, hedge, -⟩ := (hnet.edge_iff hr t c).mp hlink
      exact hnet.routers u t edge hedge
    · exact ih hv

private theorem SharesGraph.walk_of_path (hnet : SharesGraph net graph) (hr : net.routers.get? a = some r)
    {first : UInt16} {n : Nat} (h : PathOver r d first n) :
    ∃ c m, net.Edge a first c ∧ Walk net.Edge first d m ∧ n = c + m := by
  refine h.rec_on (P := fun v first n => ∃ c m, net.Edge a first c ∧ Walk net.Edge first v m ∧ n = c + m)
    (fun v first n hseed => ?_) fun u v first n w _ ih honward => ?_
  · obtain ⟨rfl, -, hlink⟩ := (hnet.seed_iff hr v first n).mp hseed
    exact ⟨n, 0, hlink, .nil first, rfl⟩
  · obtain ⟨c, m, hlink, hwalk, rfl⟩ := ih
    obtain ⟨-, -, edge, hedge, rfl⟩ := (hnet.onward_iff hr u v w).mp honward
    exact ⟨c, m + edge.cost.toNat, hlink, hwalk.concat (hnet.edge_of_graph hedge), Nat.add_assoc ..⟩

/-- A walk to another router never comes back to this one, or else what follows its last return is a
path of this router. -/
private theorem SharesGraph.path_of_walk (hnet : SharesGraph net graph) (hr : net.routers.get? a = some r)
    (hd : d ≠ a) {x : UInt16} {n : Nat} (h : Walk net.Edge x d n) :
    (x ≠ a ∧ Walk (Onward r) x d n) ∨ ∃ first m, PathOver r d first m ∧ m ≤ n := by
  induction h with
  | nil v => exact .inl ⟨hd, .nil v⟩
  | @cons u v d c n hlink _ ih =>
    rcases ih hd with ⟨hv, hrest⟩ | ⟨first, m, hpath, hle⟩
    · by_cases hu : u = a
      · subst hu
        have hseed : PathOver r v v c := ⟨[], .seed ((hnet.seed_iff hr v v c).mpr ⟨rfl, hv, hlink⟩)⟩
        exact .inr ⟨v, c + n, hseed.append hrest, Nat.le_refl _⟩
      · obtain ⟨r', hr'⟩ := hlink.source
        obtain ⟨edge, hedge, hcost⟩ := (hnet.edge_iff hr' v c).mp hlink
        exact .inl ⟨hu, .cons ((hnet.onward_iff hr u v c).mpr ⟨hu, hv, edge, hedge, hcost⟩) hrest⟩
    · exact .inr ⟨first, m, hpath, hle.trans (Nat.le_add_left n c)⟩

theorem SharesGraph.routes (hnet : SharesGraph net graph) (htotal : totalLinks graph ≤ 65535)
    (hr : net.routers.get? a = some r) (hd : d ≠ a) :
    ((r.routingTable.get? d).isSome ↔ ∃ first n, PathOver r d first n) ∧
      ∀ route, r.routingTable.get? d = some route → PathOver r d route.nextHop route.cost.toNat ∧
        ∀ first n, PathOver r d first n → route.cost.toNat ≤ n := by
  have hshortest := shortest_routes (sampleEnv 0) (hnet.ports a r hr).linked (hnet.fits htotal hr) d
  obtain ⟨env, before, hbuilt⟩ := hnet.rebuilt a r hr
  have hcoherent : Coherent r := hbuilt ▸ .rebuilt env before
  rw [← hcoherent (sampleEnv 0) d, hnet.routerId a r hr] at hshortest
  simpa [hd] using hshortest

private theorem SharesGraph.walk_of_costTo (hnet : SharesGraph net graph) (htotal : totalLinks graph ≤ 65535)
    {n : Nat} (hn : net.costTo d a = some n) : Walk net.Edge a d n := by
  by_cases had : a = d
  · subst had
    obtain rfl : 0 = n := by simpa [Network.costTo] using hn
    exact .nil a
  · obtain ⟨r, route, hr, hroute, rfl⟩ := (Network.costTo_of_ne had n).mp hn
    have hpath := ((hnet.routes htotal hr (Ne.symm had)).2 route hroute).1
    obtain ⟨c, m, hlink, hwalk, heq⟩ := hnet.walk_of_path hr hpath
    exact heq ▸ .cons hlink hwalk

private theorem SharesGraph.costTo_le (hnet : SharesGraph net graph) (htotal : totalLinks graph ≤ 65535)
    {n : Nat} (hwalk : Walk net.Edge a d n) : ∃ m, net.costTo d a = some m ∧ m ≤ n := by
  by_cases had : a = d
  · exact ⟨0, by simp [Network.costTo, had], Nat.zero_le n⟩
  have hrouter : ∃ r, net.routers.get? a = some r := by
    cases hwalk with
    | nil => exact absurd rfl had
    | cons hlink _ => exact hlink.source
  obtain ⟨r, hr⟩ := hrouter
  obtain ⟨hfound, hleast⟩ := hnet.routes htotal hr (Ne.symm had)
  rcases hnet.path_of_walk hr (Ne.symm had) hwalk with ⟨hne, -⟩ | ⟨first, m, hpath, hle⟩
  · exact absurd rfl hne
  · obtain ⟨route, hroute⟩ := Option.isSome_iff_exists.mp (hfound.mpr ⟨first, m, hpath⟩)
    exact ⟨route.cost.toNat, (Network.costTo_of_ne had _).mpr ⟨r, route, hr, hroute, rfl⟩,
      ((hleast route hroute).2 first m hpath).trans hle⟩

theorem SharesGraph.step (hnet : SharesGraph net graph) (htotal : totalLinks graph ≤ 65535)
    {packet : Packet} (hdest : ntohs (packet.block.memory.load16 6) = d) {n : Nat} (had : a ≠ d)
    (hn : net.costTo d a = some n) :
    ∃ v c m, net.Hop packet a v ∧ net.Edge a v c ∧ 0 < c ∧ net.costTo d v = some m ∧ n = c + m := by
  obtain ⟨r, route, hr, hroute, rfl⟩ := (Network.costTo_of_ne had n).mp hn
  obtain ⟨hpath, -⟩ := (hnet.routes htotal hr (Ne.symm had)).2 route hroute
  obtain ⟨c, m, hlink, hwalk, hsum⟩ := hnet.walk_of_path hr hpath
  obtain ⟨k, hk, hkm⟩ := hnet.costTo_le htotal hwalk
  obtain ⟨n', hn', hle⟩ := hnet.costTo_le htotal (.cons hlink (hnet.walk_of_costTo htotal hk))
  obtain rfl := Option.some.inj (hn.symm.trans hn')
  obtain ⟨edge, hedge, hc⟩ := (hnet.edge_iff hr _ c).mp hlink
  have hhop : net.Hop packet a route.nextHop := by
    obtain ⟨r', link, hr', hlink, -⟩ := hlink
    obtain rfl := Option.some.inj (hr.symm.trans hr')
    refine ⟨r, link.port, hr, ?_, ((hnet.ports a r hr).attached_of_link hlink).2⟩
    have hne : d ≠ r.routerId := by
      rw [hnet.routerId a r hr]
      exact Ne.symm had
    simp [recvData, hdest, hne, hroute, hlink]
  exact ⟨route.nextHop, c, k, hhop, hlink, hc ▸ hnet.positive _ _ _ hedge, hk, by omega⟩

theorem SharesGraph.bellman (hnet : SharesGraph net graph) (htotal : totalLinks graph ≤ 65535)
    {packet : Packet} (hdest : ntohs (packet.block.memory.load16 6) = d) :
    Bellman (net.Hop packet) net.Edge d (net.costTo d) where
  target := by simp [Network.costTo]
  step _ _ had hn := hnet.step htotal hdest had hn
  relaxed _ _ _ _ hlink hn := hnet.costTo_le htotal (.cons hlink (hnet.walk_of_costTo htotal hn))

/-- Where all routers hold one symmetric graph, hop by hop forwarding takes a data packet to every router
that can be reached, through no router twice, and at the cost that its source recorded. -/
theorem shared_graph_forwards (hnet : SharesGraph net graph) (htotal : totalLinks graph ≤ 65535)
    (hr : net.routers.get? a = some r) (hd : d ≠ a) (hreach : ∃ n, Walk net.Edge a d n) :
    ∃ route, r.routingTable.get? d = some route ∧ IsDistance net.Edge a d route.cost.toNat ∧
      ∀ packet, ntohs (packet.block.memory.load16 6) = d →
        (∃ path, Trail (net.Hop packet) net.Edge a d path route.cost.toNat ∧ path.Nodup) ∧
        ∃ s, net.routers.get? d = some s ∧ recvData packet s = [] := by
  obtain ⟨n, hwalk⟩ := hreach
  obtain ⟨m, hm, -⟩ := hnet.costTo_le htotal hwalk
  obtain ⟨r', route, hr', hroute, rfl⟩ := (Network.costTo_of_ne (Ne.symm hd) m).mp hm
  obtain rfl := Option.some.inj (hr.symm.trans hr')
  refine ⟨route, hroute, (hnet.bellman htotal (Network.packetTo_dest d)).isDistance hm,
    fun packet hdest => ⟨?_, ?_⟩⟩
  · obtain ⟨path, htrail, hnodup, -⟩ := (hnet.bellman htotal hdest).trail hm
    exact ⟨path, htrail, hnodup⟩
  · obtain ⟨s, hs⟩ := Option.isSome_iff_exists.mp (hnet.isSome_of_walk hwalk hd)
    exact ⟨s, hs, by simp [recvData, hdest, hnet.routerId d s hs]⟩

/-- Links of cost 1 from 1 to 2 and from 2 to 3, and one of cost 5 from 3 to 1. -/
def ringGraph : Graph :=
  addEdge (sampleEnv 0) 3 1 5 (addEdge (sampleEnv 0) 2 3 1 (addEdge (sampleEnv 0) 1 2 1 .empty))

def ringRouter (routerId : UInt16) (links : NeighborTable) (ports : PortTable) : Router :=
  updateForwardingTable (sampleEnv 7)
    { Router.init 2 routerId .ls with neighborTable := links, portTable := ports, graph := ringGraph }

def ring : Network where
  routers := ⟨[
    (1, ringRouter 1 ⟨[(2, ⟨1, 0, 15000⟩), (3, ⟨5, 1, 15000⟩)], by decide⟩ ⟨[(0, 2), (1, 3)], by decide⟩),
    (2, ringRouter 2 ⟨[(3, ⟨1, 1, 15000⟩), (1, ⟨1, 0, 15000⟩)], by decide⟩ ⟨[(1, 3), (0, 1)], by decide⟩),
    (3, ringRouter 3 ⟨[(1, ⟨5, 0, 15000⟩), (2, ⟨1, 1, 15000⟩)], by decide⟩ ⟨[(1, 2), (0, 1)], by decide⟩)],
    by decide⟩
  attached a port := if port = 0 then (if a = 1 then 2 else 1) else if a = 3 then 2 else 3

private theorem edgeAt_addEdge_comm (env : Env) (u v weight : UInt16) {graph : Graph}
    (h : ∀ x y, edgeAt graph x y = edgeAt graph y x) (x y : UInt16) :
    edgeAt (addEdge env u v weight graph) x y = edgeAt (addEdge env u v weight graph) y x := by
  have hends : (x = u ∧ y = v ∨ x = v ∧ y = u) ↔ (y = u ∧ x = v ∨ y = v ∧ x = u) := by tauto
  rw [edgeAt_addEdge, edgeAt_addEdge, h x y]
  simp only [hends]

private theorem ring_links : ∀ x ∈ ring.routers.entries, x.2.routerId = x.1 ∧
    (∀ e ∈ x.2.neighborTable.entries, x.2.portTable.get? e.2.port = some e.1 ∧
      (edgeAt ringGraph x.1 e.1).map Edge.cost = some e.2.cost) ∧
    x.2.portTable.entries.Forall fun e => e.1 < x.2.numPorts ∧ ring.attached x.1 e.1 = e.2 ∧
      (x.2.neighborTable.get? e.2).any fun link => link.port = e.1 := by
  decide +kernel

private theorem ring_edges : ∀ row ∈ ringGraph.entries, ∀ e ∈ row.2.entries,
    0 < e.2.cost.toNat ∧ (ring.routers.get? e.1).isSome ∧
    (ring.routers.get? row.1).all fun r => (r.neighborTable.get? e.1).isSome := by
  decide +kernel

private theorem ring_built : ∀ x ∈ ring.routers.entries, ∃ before,
    x.2 = updateForwardingTable (sampleEnv 7) before ∧ before.graph = ringGraph := by
  simp only [ring, List.forall_mem_cons]
  exact ⟨⟨_, rfl, rfl⟩, ⟨_, rfl, rfl⟩, ⟨_, rfl, rfl⟩, by simp⟩

private theorem ring_shares : SharesGraph ring ringGraph where
  routerId _ _ hr := (ring_links _ ((Table.mem_entries_iff ..).mpr hr)).1
  ports _ r hr := by
    obtain ⟨-, hlinks, hports⟩ := ring_links _ ((Table.mem_entries_iff ..).mpr hr)
    constructor
    · intro p n hp
      obtain ⟨hlt, hat, hany⟩ := List.forall_iff_forall_mem.mp hports _ ((Table.mem_entries_iff ..).mpr hp)
      obtain ⟨link, hlink, hport⟩ := (Option.any_eq_true _ _).mp hany
      exact ⟨hlt, hat, link, hlink, of_decide_eq_true hport⟩
    · intro n link hlink
      exact (hlinks _ ((Table.mem_entries_iff ..).mpr hlink)).1
  same a r hr x y := by
    obtain ⟨before, heq, hsame⟩ := ring_built _ ((Table.mem_entries_iff ..).mpr hr)
    rw [show r = _ from heq, updateForwardingTable_edges, hsame]
  neighbors a r hr b := by
    have hlinks := (ring_links _ ((Table.mem_entries_iff ..).mpr hr)).2.1
    cases hlink : r.neighborTable.get? b with
    | some link => exact (hlinks _ ((Table.mem_entries_iff ..).mpr hlink)).2.symm
    | none =>
      cases hedge : edgeAt ringGraph a b with
      | none => rfl
      | some edge =>
        obtain ⟨edges, hrow, hentry⟩ := (edgeAt_eq_some_iff ..).mp hedge
        have hall := (ring_edges _ hrow _ hentry).2.2
        simp [show ring.routers.get? a = some r from hr, hlink] at hall
  rebuilt a r hr := by
    obtain ⟨before, heq, -⟩ := ring_built _ ((Table.mem_entries_iff ..).mpr hr)
    exact ⟨sampleEnv 7, before, heq⟩
  symmetric x y := by
    rw [ringGraph, edgeAt_addEdge_comm _ _ _ _ (edgeAt_addEdge_comm _ _ _ _ (edgeAt_addEdge_comm _ _ _ _
      fun _ _ => rfl))]
  positive x y edge hedge := by
    obtain ⟨edges, hrow, hentry⟩ := (edgeAt_eq_some_iff ..).mp hedge
    exact (ring_edges _ hrow _ hentry).1
  routers x y edge hedge := by
    obtain ⟨edges, hrow, hentry⟩ := (edgeAt_eq_some_iff ..).mp hedge
    exact (ring_edges _ hrow _ hentry).2.1

theorem ring_forwards : ∃ route, (ring.routers.get? 1).bind (fun r => r.routingTable.get? 3) = some route ∧
    ∃ path, Trail (ring.Hop (Network.packetTo 3)) ring.Edge 1 3 path route.cost.toNat ∧ path.Nodup := by
  have hr : ring.routers.get? 1 = some _ := rfl
  have hlink : ring.Edge 1 3 5 := ⟨_, ⟨5, 1, 15000⟩, hr, rfl, rfl⟩
  obtain ⟨route, hroute, -, hforward⟩ := shared_graph_forwards ring_shares (by decide +kernel) hr (d := 3)
    (by decide) ⟨5, .cons hlink (.nil 3)⟩
  exact ⟨route, hroute, (hforward (Network.packetTo 3) (Network.packetTo_dest 3)).1⟩

end Comp556.Ls
