import Comp556.Routing.DvInvariant
import Comp556.Routing.LsCoherence

/-!
# The two tables of neighbours

In both modes `neighbor_table` and `port_table` stay inverse to each other, so what other handlers
look up in one of them by way of the other is there.
-/

namespace Comp556.Router

variable {attached : UInt16 → UInt16} {numPorts routerId : UInt16} {r : Router}

/-- Every state of a router whose pongs and DV packets come from the routers attached to its ports. -/
def WiredReachable (attached : UInt16 → UInt16) (numPorts routerId : UInt16) (r : Router) : Prop :=
  DvReachable attached numPorts routerId r ∨
    Reaches (Ls.WiredEvent attached numPorts) (Router.init numPorts routerId .ls) r

theorem WiredReachable.portsMatch (h : WiredReachable attached numPorts routerId r)
    (ha : Attached attached numPorts routerId) : PortsMatch attached r ∧ r.numPorts = numPorts := by
  rcases h with hdv | hls
  · have hinv := Dv.DvInv.run ha hdv
    exact ⟨hinv.ports, hinv.numPorts⟩
  · exact Ls.wired_portsMatch ha hls

theorem PortsMatch.sender (h : PortsMatch attached r) (ha : Attached attached r.numPorts routerId)
    {port : UInt16} {packet : Packet} (hfrom : FromAttached attached r.numPorts port packet) {link : Link}
    (hlink : r.neighborTable.get? (ntohs (packet.block.memory.load16 4)) = some link) :
    link.port = port ∧ r.portTable.get? port = some (ntohs (packet.block.memory.load16 4)) := by
  obtain ⟨hlt, hatt⟩ := h.attached_of_link hlink
  obtain rfl := ha.injective _ _ hlt hfrom.1 (hatt.trans hfrom.2)
  exact ⟨rfl, h.linked _ link hlink⟩

private theorem PortsMatch.initSearch_nextHop (h : PortsMatch attached r) (env : Env) {n : UInt16} {link : Link}
    (hlink : r.neighborTable.get? n = some link) : (Ls.initSearch env r).nextHop.get? n = some n := by
  have hseen := (Ls.initSearch_effect env r).2 n
  rw [hlink, Option.map_some, Option.getD_some, Ls.hopOf, Table.getD_of_get? 0 (h.linked n link hlink)] at hseen
  exact congrArg (fun record => record.2.1) hseen

/-- A port leads to the neighbour whose link has that port; so a DV packet from a neighbour always finds its
sender and its link by way of the port it came in on, and Dijkstra's algorithm starts with every neighbour
as its own next hop. -/
theorem ports_inverse (ha : Attached attached numPorts routerId)
    (hrun : WiredReachable attached numPorts routerId r) :
    (∀ p n, r.portTable.get? p = some n ↔ ∃ link, r.neighborTable.get? n = some link ∧ link.port = p) ∧
      (∀ n n' link link', r.neighborTable.get? n = some link → r.neighborTable.get? n' = some link' →
        link.port = link'.port → n = n') ∧
      (∀ p p' n, r.portTable.get? p = some n → r.portTable.get? p' = some n → p = p') ∧
      (∀ env port packet, FromAttached attached numPorts port packet →
        r.neighborTable.contains (ntohs (packet.block.memory.load16 4)) →
          r.portTable.index env.layout port 0 = (ntohs (packet.block.memory.load16 4), r.portTable) ∧
          (Dv.recv env port packet.block.memory packet.size r).isSome) ∧
      ∀ env n, n ∈ r.neighborTable.keys → (Ls.initSearch env r).nextHop.get? n = some n := by
  obtain ⟨hports, rfl⟩ := hrun.portsMatch ha
  refine ⟨hports.inverse, fun n n' link link' hlink hlink' hport => ?_,
    fun p p' n hp hp' => ?_, fun env port packet hfrom hsource => ?_, fun env n hn => ?_⟩
  · have hlinked := hports.linked n link hlink
    rw [hport, hports.linked n' link' hlink'] at hlinked
    exact (Option.some.inj hlinked).symm
  · obtain ⟨_, _, link, hlink, rfl⟩ := hports.known p n hp
    obtain ⟨_, _, link', hlink', rfl⟩ := hports.known p' n hp'
    rw [Option.some.inj (hlink.symm.trans hlink')]
  · obtain ⟨link, hlink⟩ := Option.isSome_iff_exists.mp hsource
    obtain ⟨-, hport⟩ := hports.sender ha hfrom hlink
    obtain ⟨r', calls, hhandled, -⟩ :=
      Dv.recv_effect env port packet.block.memory packet.size r link hport hlink
    exact ⟨Table.index_of_get? 0 hport, by simp [hhandled]⟩
  · obtain ⟨link, hlink⟩ := Option.isSome_iff_exists.mp ((Table.mem_keys_iff ..).mp hn)
    exact hports.initSearch_nextHop env hlink

theorem mixedEvents_inverse : ∃ r, handleAll (Router.init 2 1 .dv) Dv.mixedEvents = some r ∧
    r.portTable.get? 0 = some 10 ∧ r.portTable.get? 1 = some 20 := by
  have hrun : (handleAll (Router.init 2 1 .dv) Dv.mixedEvents).map
      (fun r => (r.neighborTable.get? 10, r.neighborTable.get? 20)) =
      some (some ⟨1, 0, 15001⟩, some ⟨10, 1, 15010⟩) := by decide +kernel
  obtain ⟨r, hr, hlinks⟩ := Option.map_eq_some_iff.mp hrun
  obtain ⟨hten, htwenty⟩ := Prod.mk.inj hlinks
  have hinverse := (ports_inverse Dv.twoPorts_attached (.inl (handleAll_reaches Dv.mixedEvents_events hr))).1
  exact ⟨r, hr, (hinverse 0 10).mpr ⟨_, hten, rfl⟩, (hinverse 1 20).mpr ⟨_, htwenty, rfl⟩⟩

end Comp556.Router
