import Comp556.Simulator.DvRefinement

/-!
# Forwarding in the simulator

What holds of every network of distance-vector routers holds of the routers of a simulation: following
`recv_data` from node to node never leads in a circle.
-/

namespace Comp556.Sim

open Router Dv Simulator

variable {queue : EventQueue} {config : Config} {node : Nat} {u v d : UInt16} {limit : Nat} {net : DvNet}
variable {sim₀ sim : Simulator queue Router} {turns : List Turn} {packet : Packet} {chances : Nat → Chance}

/-- `recv_data` of the router with id `u` sends the packet, and `Node::send` puts it on a link to the node with
id `v`. -/
def Simulator.Forwards (config : Config) (sim : Simulator queue Router) (packet : Packet) (u v : UInt16) :
    Prop :=
  ∃ a b this port ln dport, config.nodes[a]? = some u ∧ config.nodes[b]? = some v ∧ sim.nodes[a]? = some this ∧
    recvData packet this.rp = [.send port packet] ∧
    sim.send a port packet = some (sim.sendGeneric ln packet dport b)

theorem Mirrors.this (hmirrors : Mirrors config net sim.nodes (queue.elements sim.eventQ))
    (hhosted : (routerContract config .dv).HostedBy config sim) (hu : config.nodes[node]? = some u) :
    sim.nodes[node]? = some ⟨u, config.linkVector node, net.router u⟩ := by
  obtain ⟨rp, hthis, -⟩ := hhosted.node node u hu
  rw [hthis, hmirrors.router node u rp hu hthis]

theorem Mirrors.forwards (hconfig : config.WellFormed) (hsteady : config.Steady limit)
    (hmirrors : Mirrors config net sim.nodes (queue.elements sim.eventQ))
    (hhosted : (routerContract config .dv).HostedBy config sim)
    (h : net.Forwards (config.topology hconfig hsteady) packet u v) : sim.Forwards config packet u v := by
  obtain ⟨port, hrecv, hport⟩ := h
  obtain ⟨ln, a, b, q, hcarries, hu, hv⟩ := exists_carries_of_portTo hconfig hport
  obtain ⟨ln', b', q', hcarries', hsend⟩ := hhosted.send_eq hconfig packet (List.getElem?_eq_some_iff.mp hu).1
    (hconfig.lt_numPorts hcarries.out)
  obtain ⟨rfl, rfl⟩ := hconfig.carries_end hcarries hcarries'
  exact ⟨a, b, _, port, ln, q', hu, hv, hmirrors.this hhosted hu, hrecv, hsend⟩

private theorem sampleRun_calm :
    ∃ (sim₀ sim : Simulator .oldestFirst Router) (turns : List Turn) (this : Node Router) (route : Route),
      sampleStart .oldestFirst 11 [] = some sim₀ ∧ Runs (routingProtocolImpl .dv) Calm sim₀ turns sim ∧
        sim.overflowed = false ∧ sim.nodes[1]? = some this ∧ this.id = 2 ∧
          this.rp.routingTable.get? 3 = some route := by
  have hrun : (sampleStart .oldestFirst 11 []).any fun sim =>
      (sim.run (routingProtocolImpl .dv) (List.replicate 30 quietChance)).any fun out =>
        (out.2.nodes[1]?).any fun this => (this.rp.routingTable.get? 3).any fun _ =>
          decide (this.id = 2 ∧ out.2.overflowed = false ∧
            AdmitsAll (routingProtocolImpl .dv) Calm sim (List.replicate 30 quietChance)) := by
    decide +kernel
  obtain ⟨sim₀, turns, sim, hstart, hruns, hholds⟩ := exists_sampleRun hrun fun sim out hholds => by
    obtain ⟨this, -, hany⟩ := (Option.any_eq_true _ _).mp hholds
    obtain ⟨route, -, hall⟩ := (Option.any_eq_true _ _).mp hany
    exact (of_decide_eq_true hall).2.2
  obtain ⟨this, hthis, hany⟩ := (Option.any_eq_true _ _).mp hholds
  obtain ⟨route, hroute, hall⟩ := (Option.any_eq_true _ _).mp hany
  obtain ⟨hid, hfit, -⟩ := of_decide_eq_true hall
  exact ⟨sim₀, sim, turns, this, route, hstart, hruns, hfit, hthis, hid, hroute⟩

/-- In every run in which no DV packet is overtaken and nothing passes its deadline, the routers at the
nodes and the DV packets under way are those of a network that its own steps lead to. -/
theorem simulator_refines_network (hconfig : config.WellFormed) (hdata : config.SendsData)
    (hsteady : config.Steady limit)
    (hstart : started queue config (routingProtocolImpl .dv) chances = some sim₀)
    (hrun : Runs (routingProtocolImpl .dv) Calm sim₀ turns sim) (hfit : sim.overflowed = false) :
    ∃ net : DvNet, net.Reachable (config.topology hconfig hsteady) ∧
      (∀ (node : Nat) (u : UInt16), config.nodes[node]? = some u →
        sim.nodes[node]? = some ⟨u, config.linkVector node, net.router u⟩) ∧
      ∀ (ln a b : Nat) (p q u v : UInt16), config.Carries ln a p b q → config.nodes[a]? = some u →
        config.nodes[b]? = some v →
          InSequence (underWay (queue.elements sim.eventQ) ln b) (net.channel u v) := by
  obtain ⟨⟨hhosted, -, -, -⟩, net, hreach, hmirrors⟩ := network_of_runs hconfig hdata hstart hsteady hrun hfit
  exact ⟨net, hreach, fun node u => hmirrors.this hhosted,
    fun ln a b p q u v => hmirrors.channel ln a p b q u v⟩

theorem sampleRun_refines_network :
    ∃ (sim : Simulator .oldestFirst Router) (net : DvNet),
      net.Reachable ((sampleConfig 11 []).topology steadyConfig_wellFormed steadyConfig_steady) ∧
        sim.nodes[1]? = some ⟨2, [0], net.router 2⟩ ∧ ((net.router 2).routingTable.get? 3).isSome ∧
          InSequence (underWay (PriorityQueue.oldestFirst.elements sim.eventQ) 0 0) (net.channel 2 1) := by
  obtain ⟨sim₀, sim, turns, this, route, hstart, hruns, hfit, hthis, hid, hroute⟩ := sampleRun_calm
  obtain ⟨net, hreach, hnodes, hchannels⟩ :=
    simulator_refines_network steadyConfig_wellFormed steadyConfig_sendsData
    steadyConfig_steady hstart hruns hfit
  have hnode : sim.nodes[1]? = some ⟨2, [0], net.router 2⟩ := hnodes 1 2 rfl
  obtain rfl := Option.some.inj (hthis.symm.trans hnode)
  exact ⟨sim, net, hreach, hnode, Option.isSome_of_eq_some hroute,
    hchannels 0 1 0 0 0 2 1 ⟨rfl, rfl, _, rfl, .inr ⟨rfl, rfl⟩⟩ rfl rfl⟩

/-- Whatever packets are lost and links die, as long as no DV packet is overtaken and nothing passes its
deadline: a data packet for any recorded destination is sent from node to node until it is there, and visits
no node twice. -/
theorem simulator_forwards (hconfig : config.WellFormed) (hdata : config.SendsData)
    (hsteady : config.Steady limit)
    (hstart : started queue config (routingProtocolImpl .dv) chances = some sim₀)
    (hrun : Runs (routingProtocolImpl .dv) Calm sim₀ turns sim) (hfit : sim.overflowed = false)
    {this : Node Router} (hthis : sim.nodes[node]? = some this) {route : Route}
    (hroute : this.rp.routingTable.get? d = some route) (hdest : ntohs (packet.block.memory.load16 6) = d) :
    (∃ path n, Trail (sim.Forwards config packet) config.Edge this.id d path n ∧ path.Nodup) ∧
      ∃ (b : Nat) (there : Node Router), sim.nodes[b]? = some there ∧ there.id = d ∧
      recvData packet there.rp = [] := by
  obtain ⟨⟨hhosted, -, -, -⟩, net, hreach, hmirrors⟩ :=
    network_of_runs hconfig hdata hstart hsteady hrun hfit
  have hlt : node < config.nodes.length := hhosted.size ▸ (List.getElem?_eq_some_iff.mp hthis).1
  obtain ⟨u, r, hu, hthis', id, hid, hhosts⟩ := hhosted.exists_node hlt
  obtain rfl := Option.some.inj (hu.symm.trans hid)
  obtain rfl := Option.some.inj (hthis.symm.trans hthis')
  obtain rfl := hmirrors.router node u r hu hthis'
  have hsound := (settling_of_reachable (topology_small hconfig hsteady) hreach).sound
  obtain ⟨path, n, htrail, hnodup⟩ := hsound.trail hroute hdest
  rw [topology_edges] at htrail
  refine ⟨⟨path, n, htrail.mono fun a b => hmirrors.forwards hconfig hsteady hhosted, hnodup⟩, ?_⟩
  obtain ⟨b, hd⟩ := List.mem_iff_getElem?.mp
    (hhosts.known rfl d ((Table.mem_keys_iff ..).mpr (Option.isSome_of_eq_some hroute)))
  exact ⟨b, _, hmirrors.this hhosted hd, rfl, hsound.arrived hdest⟩

theorem sampleRun_forwards :
    ∃ (sim : Simulator .oldestFirst Router) (path : List UInt16) (n : Nat),
      Trail (sim.Forwards (sampleConfig 11 []) (Network.packetTo 3)) (sampleConfig 11 []).Edge 2 3 path n ∧
        path.Nodup := by
  obtain ⟨sim₀, sim, turns, this, route, hstart, hruns, hfit, hthis, hid, hroute⟩ := sampleRun_calm
  obtain ⟨⟨path, n, htrail, hnodup⟩, -⟩ := simulator_forwards steadyConfig_wellFormed steadyConfig_sendsData
    steadyConfig_steady hstart hruns hfit hthis hroute (Network.packetTo_dest 3)
  exact ⟨sim, path, n, hid ▸ htrail, hnodup⟩

end Comp556.Sim
