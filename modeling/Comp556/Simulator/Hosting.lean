import Comp556.Simulator.Clock
import Comp556.Simulator.Wiring

/-!
# Hosting a routing protocol

What a routing protocol keeps to at every node as long as packets and alarms are as it expects them, it
keeps to in every run of the simulator. The simulator then finds every node, link and port it looks up.
-/

namespace Comp556.Sim

variable {queue : EventQueue} {R : Type}

/-- What holds of the protocol at a node, what it sends out of a port and what it expects to come in
there, with the time, and the alarms it sets. -/
structure Contract (R : Type) where
  good : Nat → R → Prop
  sends : Nat → UInt16 → UInt32 → Packet → Prop
  expects : Nat → UInt16 → UInt32 → Packet → Prop
  sets : Alarm → Prop

namespace Contract

variable (contract : Contract R) (config : Config)

/-- Calls that a handler of a node may make. -/
structure Allows (node : Nat) (time : UInt32) (calls : List SysCall) : Prop where
  send : ∀ port pkt, .send port pkt ∈ calls →
    port < config.numPorts node ∧ contract.sends node port time pkt
  setAlarm : ∀ duration alarm, .setAlarm duration alarm ∈ calls → contract.sets alarm

/-- The protocol keeps the contract, and links deliver what is expected of what is sent. -/
structure KeptBy (protocol : RoutingProtocol R) : Prop where
  init : ∀ env node id, config.nodes[node]? = some id →
    contract.good node (protocol.init env (config.numPorts node) id).1 ∧
      contract.Allows config node env.time (protocol.init env (config.numPorts node) id).2
  recv : ∀ env node port pkt rp, node < config.nodes.length → contract.good node rp →
    contract.expects node port env.time pkt → ∃ out, protocol.recv env port pkt rp = some out ∧
      contract.good node out.1 ∧ contract.Allows config node env.time out.2
  handleAlarm : ∀ env node alarm rp, node < config.nodes.length → contract.good node rp → contract.sets alarm →
    ∃ out, protocol.handleAlarm env rp alarm = some out ∧
      contract.good node out.1 ∧ contract.Allows config node env.time out.2
  carries : ∀ chance ln a p b q time delay pkt, config.Carries ln a p b q → config.HasDelay ln delay →
    contract.sends a p time pkt → contract.expects b q (time + delay) (Simulator.copyPacket chance pkt)
  injects : ∀ chance start time src pkt, (start, .xmitPktEndToEnd src pkt) ∈ config.events →
    contract.expects src specialPort time (Simulator.copyPacket chance pkt)

def Fits (time : UInt32) : EventBody → Prop
  | .changeDelay link delay => link < config.links.length ∧ config.HasDelay link delay
  | .linkDie dyingLink => dyingLink < config.links.length
  | .linkComeUp upcomingLink => upcomingLink < config.links.length
  | .xmitPktEndToEnd src pkt => src < config.nodes.length ∧
    ∀ chance time, contract.expects src specialPort time (Simulator.copyPacket chance pkt)
  | .xmitPktOnLink dest dport ln pkt => ∃ a p, config.Carries ln a p dest dport ∧ contract.sends a p time pkt
  | .recvPkt dest dport pkt _ => dest < config.nodes.length ∧
    ∀ chance, contract.expects dest dport time (Simulator.copyPacket chance pkt)
  | .alarm rp data => rp < config.nodes.length ∧ contract.sets data

/-- The invariant of the simulator: the nodes and links of the configuration, with a protocol at each node
that keeps the contract. -/
structure HostedBy (sim : Simulator queue R) : Prop where
  size : sim.nodes.length = config.nodes.length
  node : ∀ i id, config.nodes[i]? = some id →
    ∃ rp, sim.nodes[i]? = some ⟨id, config.linkVector i, rp⟩ ∧ contract.good i rp
  link : ∀ ln link, config.links[ln]? = some link → ∃ link', sim.links[ln]? = some link' ∧
    link'.node1 = link.node1 ∧ link'.node2 = link.node2 ∧ config.HasDelay ln link'.delay
  events : ∀ e ∈ queue.elements sim.eventQ, contract.Fits config e.time e.body

end Contract

namespace Contract.HostedBy

variable {contract : Contract R} {config : Config} {sim sim' : Simulator queue R} {node ln : Nat} {p : UInt16}
variable {time : UInt32} {body : EventBody} {protocol : RoutingProtocol R}

theorem exists_node (h : contract.HostedBy config sim) (hnode : node < config.nodes.length) :
    ∃ id rp, config.nodes[node]? = some id ∧ sim.nodes[node]? = some ⟨id, config.linkVector node, rp⟩ ∧
      contract.good node rp := by
  have hid := List.getElem?_eq_getElem hnode
  obtain ⟨rp, hrp, hgood⟩ := h.node node _ hid
  exact ⟨_, rp, hid, hrp, hgood⟩

theorem push (h : contract.HostedBy config sim) (hfits : contract.Fits config time body) :
    contract.HostedBy config (sim.push time body) where
  size := h.size
  node := h.node
  link := h.link
  events e he := by
    rw [Simulator.push, queue.elements_push, Multiset.mem_cons] at he
    rcases he with rfl | he
    · exact hfits
    · exact h.events e he

theorem pushAfter (h : contract.HostedBy config sim) {base duration : UInt32}
    (hfits : contract.Fits config (base + duration) body) :
    contract.HostedBy config (sim.pushAfter base duration body) :=
  ⟨h.size, h.node, h.link, (h.push hfits).events⟩

/-- `Node::send` succeeds for every port of the node: the far end knows the link. -/
theorem send_eq (hconfig : config.WellFormed) (h : contract.HostedBy config sim) (pkt : Packet)
    (hnode : node < config.nodes.length) (hport : p < config.numPorts node) :
    ∃ ln b q, config.Carries ln node p b q ∧ sim.send node p pkt = some (sim.sendGeneric ln pkt q b) := by
  obtain ⟨ln, b, q, hcarries, hq, hb, hne⟩ := hconfig.exists_carries hport
  obtain ⟨link₀, hlink₀, hjoins⟩ := hcarries.joins
  obtain ⟨link, hlink, hnode1, hnode2, -⟩ := h.link ln link₀ hlink₀
  obtain ⟨id, rp, hid, hthis, -⟩ := h.exists_node hnode
  obtain ⟨idB, rpB, hidB, hfar, -⟩ := h.exists_node hb
  have hlink₁ : link.Joins node b := by
    rw [Link.Joins, hnode1, hnode2]
    exact hjoins
  have hfarEnd : (if link.node1 = node then link.node2 else link.node1) = b := by
    rcases hlink₁ with ⟨rfl, rfl⟩ | ⟨rfl, rfl⟩
    · exact if_pos rfl
    · exact if_neg hne.symm
  have hend : ∃ first, sim.nodes[link.node1]? = some first ∧ (first.id = id ↔ link.node1 = node) := by
    rcases hlink₁ with ⟨rfl, rfl⟩ | ⟨rfl, rfl⟩
    · exact ⟨_, hthis, by simp⟩
    · refine ⟨_, hfar, fun heq => ?_, fun heq => absurd heq hne.symm⟩
      obtain rfl : idB = id := heq
      exact hconfig.node_of_id hidB hid
  obtain ⟨first, hfirst, hfirstId⟩ := hend
  refine ⟨ln, b, q, hcarries, ?_⟩
  have hback : (Node.mk idB (config.linkVector b) rpB).getLinkPort ln = some q := by
    simp [Node.getLinkPort, hconfig.idxOf?_linkVector hcarries.into]
  simp only [Simulator.send, hthis, hcarries.out, hlink, hfirst, hfirstId, hfarEnd, hfar, hback,
    Option.bind_eq_bind, Option.bind_some, pure]

theorem send (hconfig : config.WellFormed) (h : contract.HostedBy config sim) {pkt : Packet}
    (hnode : node < config.nodes.length) (hport : p < config.numPorts node)
    (hsends : contract.sends node p sim.globalTime pkt) :
    ∃ sim', sim.send node p pkt = some sim' ∧ contract.HostedBy config sim' ∧
      sim'.globalTime = sim.globalTime := by
  obtain ⟨ln, b, q, hcarries, hsend⟩ := h.send_eq hconfig pkt hnode hport
  exact ⟨_, hsend, h.push ⟨node, p, hcarries, hsends⟩, rfl⟩

theorem call (hconfig : config.WellFormed) (h : contract.HostedBy config sim) {c : SysCall}
    (hnode : node < config.nodes.length) (hallows : contract.Allows config node sim.globalTime [c]) :
    ∃ sim', sim.call node c = some sim' ∧ contract.HostedBy config sim' ∧ sim'.globalTime = sim.globalTime := by
  cases c with
  | send port pkt =>
    obtain ⟨hport, hsends⟩ := hallows.send port pkt (List.mem_singleton_self _)
    exact h.send hconfig hnode hport hsends
  | setAlarm duration alarm =>
    have hsets := hallows.setAlarm duration alarm (List.mem_singleton_self _)
    exact ⟨_, rfl, h.pushAfter ⟨hnode, hsets⟩, rfl⟩

theorem calls (hconfig : config.WellFormed) (h : contract.HostedBy config sim) {calls : List SysCall}
    (hnode : node < config.nodes.length) (hallows : contract.Allows config node sim.globalTime calls) :
    ∃ sim', sim.calls node calls = some sim' ∧ contract.HostedBy config sim' ∧
      sim'.globalTime = sim.globalTime := by
  induction calls generalizing sim with
  | nil => exact ⟨sim, rfl, h, rfl⟩
  | cons c calls ih =>
    have hfirst : contract.Allows config node sim.globalTime [c] :=
      ⟨fun port pkt hc => hallows.send port pkt (List.mem_cons.mpr (.inl (List.mem_singleton.mp hc))),
        fun duration alarm hc => hallows.setAlarm duration alarm
          (List.mem_cons.mpr (.inl (List.mem_singleton.mp hc)))⟩
    obtain ⟨mid, hcall, hmid, htime⟩ := h.call hconfig hnode hfirst
    have hrest : contract.Allows config node mid.globalTime calls :=
      ⟨fun port pkt hc => htime ▸ hallows.send port pkt (List.mem_cons_of_mem _ hc),
        fun duration alarm hc => hallows.setAlarm duration alarm (List.mem_cons_of_mem _ hc)⟩
    obtain ⟨sim', hcalls, hsim', htime'⟩ := ih hmid hrest
    refine ⟨sim', ?_, hsim', htime'.trans htime⟩
    rw [Simulator.calls, List.foldlM_cons, hcall]
    exact hcalls

theorem setRp (h : contract.HostedBy config sim) {rp : R} (hgood : contract.good node rp) :
    contract.HostedBy config (sim.setRp node rp) where
  size := by simp [Simulator.setRp, h.size]
  node i id hid := by
    obtain ⟨old, hold, hgoodOld⟩ := h.node i id hid
    simp only [Simulator.setRp, List.getElem?_modify, hold, Option.map_eq_map, Option.map_some]
    by_cases hi : node = i
    · subst hi
      exact ⟨rp, by simp, hgood⟩
    · exact ⟨old, by simp [hi], hgoodOld⟩
  link := h.link
  events := h.events

theorem afterHandler (hconfig : config.WellFormed) (h : contract.HostedBy config sim)
    (hnode : node < config.nodes.length) {out : R × List SysCall} (hgood : contract.good node out.1)
    (hallows : contract.Allows config node sim.globalTime out.2) :
    ∃ sim', sim.afterHandler node out = some sim' ∧ contract.HostedBy config sim' := by
  obtain ⟨sim', hcalls, hsim', -⟩ := (h.setRp hgood).calls hconfig hnode hallows
  exact ⟨sim', hcalls, hsim'⟩

variable (hconfig : config.WellFormed) (hkept : contract.KeptBy config protocol)
include hconfig hkept

theorem recvPacket (h : contract.HostedBy config sim) (chance : Chance) {pkt : Packet}
    (hnode : node < config.nodes.length)
    (hexpects : contract.expects node p sim.globalTime (Simulator.copyPacket chance pkt)) :
    ∃ sim', sim.recvPacket protocol chance node p pkt = some sim' ∧ contract.HostedBy config sim' := by
  obtain ⟨id, rp, -, hthis, hgood⟩ := h.exists_node hnode
  obtain ⟨out, hrecv, hout, hallows⟩ := hkept.recv (sim.env chance) node p _ rp hnode hgood hexpects
  obtain ⟨sim', hafter, hsim'⟩ := h.afterHandler hconfig hnode hout hallows
  exact ⟨sim', by simp [Simulator.recvPacket, hthis, hrecv, hafter], hsim'⟩

theorem alarmFires (h : contract.HostedBy config sim) (chance : Chance) {alarm : Alarm}
    (hnode : node < config.nodes.length) (hsets : contract.sets alarm) :
    ∃ sim', sim.alarmFires protocol chance node alarm = some sim' ∧ contract.HostedBy config sim' := by
  obtain ⟨id, rp, -, hthis, hgood⟩ := h.exists_node hnode
  obtain ⟨out, hhandle, hout, hallows⟩ := hkept.handleAlarm (sim.env chance) node alarm rp hnode hgood hsets
  obtain ⟨sim', hafter, hsim'⟩ := h.afterHandler hconfig hnode hout hallows
  exact ⟨sim', by simp [Simulator.alarmFires, hthis, hhandle, hafter], hsim'⟩

omit hconfig hkept in
theorem modifyLink (h : contract.HostedBy config sim) (hln : ln < config.links.length) {f : Link → Link}
    (hends : ∀ link, (f link).node1 = link.node1 ∧ (f link).node2 = link.node2)
    (hdelay : ∀ link, config.HasDelay ln link.delay → config.HasDelay ln (f link).delay) :
    ∃ sim', sim.modifyLink ln f = some sim' ∧ contract.HostedBy config sim' := by
  obtain ⟨link, hlink, hnode1, hnode2, hhas⟩ := h.link ln _ (List.getElem?_eq_getElem hln)
  have hmodify : sim.modifyLink ln f = some { sim with links := sim.links.set ln (f link) } := by
    rw [Simulator.modifyLink, hlink, Option.map_some]
  refine ⟨_, hmodify, h.size, h.node, fun l link₀ hl => ?_, h.events⟩
  obtain ⟨link', hlink', hnode1', hnode2', hhas'⟩ := h.link l link₀ hl
  by_cases heq : ln = l
  · subst heq
    obtain rfl := Option.some.inj (hlink.symm.trans hlink')
    exact ⟨f link, List.getElem?_set_self (List.getElem?_eq_some_iff.mp hlink).1,
      (hends link).1.trans hnode1', (hends link).2.trans hnode2', hdelay link hhas'⟩
  · exact ⟨link', (List.getElem?_set_ne heq).trans hlink', hnode1', hnode2', hhas'⟩

theorem dispatch (h : contract.HostedBy config sim) (chance : Chance) {e : Event}
    (hnow : sim.globalTime = e.time) (hfits : contract.Fits config e.time e.body) :
    ∃ sim', sim.dispatch protocol chance e = some sim' ∧ contract.HostedBy config sim' := by
  obtain ⟨address, time, body⟩ := e
  subst hnow
  cases body with
  | changeDelay link delay => exact h.modifyLink hfits.1 (fun _ => ⟨rfl, rfl⟩) fun _ _ => hfits.2
  | linkDie dyingLink => exact h.modifyLink hfits (fun _ => ⟨rfl, rfl⟩) fun _ hhas => hhas
  | linkComeUp upcomingLink => exact h.modifyLink hfits (fun _ => ⟨rfl, rfl⟩) fun _ hhas => hhas
  | xmitPktEndToEnd src pkt => exact h.recvPacket hconfig hkept chance hfits.1 (hfits.2 chance _)
  | recvPkt dest dport pkt origin => exact h.recvPacket hconfig hkept chance hfits.1 (hfits.2 chance)
  | alarm rp data => exact h.alarmFires hconfig hkept chance hfits.1 hfits.2
  | xmitPktOnLink dest dport ln pkt =>
    obtain ⟨a, port, hcarries, hsends⟩ := hfits
    obtain ⟨link₀, hlink₀, hjoins⟩ := hcarries.joins
    obtain ⟨link, hlink, -, -, hhas⟩ := h.link ln link₀ hlink₀
    have hdest := (hconfig.joins_ends hlink₀ hjoins).2.1
    have harrives : contract.HostedBy config
        (sim.pushAfter sim.globalTime link.delay (.recvPkt dest dport pkt ⟨address, ln⟩)) :=
      h.pushAfter ⟨hdest, fun chance => hkept.carries chance ln a port dest dport _ _ pkt hcarries hhas hsends⟩
    have hdispatch : sim.dispatch protocol chance ⟨address, sim.globalTime, .xmitPktOnLink dest dport ln pkt⟩ =
        some (if Simulator.passes chance link then
          sim.pushAfter sim.globalTime link.delay (.recvPkt dest dport pkt ⟨address, ln⟩) else sim) := by
      simp only [Simulator.dispatch, Simulator.xmitOnLink, hlink, Option.map_some]
    refine ⟨_, hdispatch, ?_⟩
    split
    · exact harrives
    · exact h

/-- A turn of the loop of `run` never fails, and keeps the invariant. -/
theorem turn (h : contract.HostedBy config sim) (hrunning : sim.ended = false) (chance : Chance) :
    ∃ t sim', sim.turn protocol chance = some (t, sim') ∧ contract.HostedBy config sim' := by
  obtain ⟨e, htop⟩ : ∃ e, queue.top sim.eventQ = some e := by
    rw [Simulator.ended, Bool.or_eq_false_iff] at hrunning
    exact Option.isSome_iff_exists.mp (by simpa using hrunning.1)
  have he := queue.mem_of_top htop
  have hat : contract.HostedBy config (sim.at_ e.time) := ⟨h.size, h.node, h.link, h.events⟩
  obtain ⟨mid, hdispatch, hmid⟩ := hat.dispatch hconfig hkept chance rfl (h.events e he)
  obtain ⟨news, hgrown, -⟩ := Simulator.dispatch_grown rfl hdispatch
  have hmem : e ∈ queue.elements mid.eventQ := by
    rw [hgrown.elements]
    exact Multiset.mem_add.mpr (.inl he)
  obtain ⟨popped, hpopped⟩ : ∃ popped, queue.top mid.eventQ = some popped := by
    refine Option.ne_none_iff_exists'.mp fun hnone => ?_
    rw [queue.top_eq_none hnone] at hmem
    exact Multiset.notMem_zero e hmem
  refine ⟨⟨mid.globalTime, e, popped⟩, mid.pop, by simp [Simulator.turn, htop, hdispatch, hpopped], hmid.size,
    hmid.node, hmid.link, fun f hf => hmid.events f ?_⟩
  rw [queue.elements_pop hpopped]
  exact Multiset.mem_cons_of_mem hf

theorem run (h : contract.HostedBy config sim) {admits : Simulator queue R → Chance → Prop} {turns : List Turn}
    (hrun : Simulator.Runs protocol admits sim turns sim') : contract.HostedBy config sim' := by
  induction hrun with
  | start => exact h
  | turn _ hrunning _ hnext ih =>
    obtain ⟨t, sim'', hturn, hsim''⟩ := ih.turn hconfig hkept hrunning _
    obtain ⟨-, rfl⟩ := Prod.mk.inj (Option.some.inj (hturn.symm.trans hnext))
    exact hsim''

omit hconfig in
theorem blank (queue : EventQueue) (chances : Nat → Chance) :
    contract.HostedBy config (Simulator.blank queue config protocol chances) where
  size := List.length_mapIdx ..
  node i id hid := by
    refine ⟨(config.initOf protocol chances i id).1, by simp [Simulator.blank, hid], ?_⟩
    exact (hkept.init ⟨0, (chances i).fresh, (chances i).layout⟩ i id hid).1
  link ln link hln := ⟨link, hln, rfl, rfl, .inl ⟨link, hln, rfl⟩⟩
  events e he := by
    rw [show queue.elements (Simulator.blank queue config protocol chances).eventQ = 0 from
      queue.elements_empty] at he
    exact absurd he (Multiset.notMem_zero e)

theorem pushEvents (h : contract.HostedBy config sim) :
    contract.HostedBy config (sim.pushEvents config.events) := by
  have hpush : ∀ events : List (UInt32 × ConfigEvent), (∀ e ∈ events, e ∈ config.events) →
      ∀ sim : Simulator queue R, contract.HostedBy config sim →
        contract.HostedBy config (sim.pushEvents events) := by
    intro events
    induction events with
    | nil => exact fun _ sim h => h
    | cons e events ih =>
      intro hevents sim h
      obtain ⟨he, hevents⟩ := List.forall_mem_cons.mp hevents
      refine ih hevents _ (h.push ?_)
      have hnames := hconfig.names e he
      obtain ⟨time, event⟩ := e
      cases event with
      | changeDelay link delay => exact ⟨hnames, .inr ⟨time, he⟩⟩
      | linkDie dyingLink => exact hnames
      | linkComeUp upcomingLink => exact hnames
      | xmitPktEndToEnd src pkt => exact ⟨hnames, fun chance now => hkept.injects chance time now src pkt he⟩
  exact hpush config.events (fun _ he => he) sim h

theorem started (queue : EventQueue) (chances : Nat → Chance) :
    ∃ sim₀, Simulator.started queue config protocol chances = some sim₀ ∧ contract.HostedBy config sim₀ := by
  have hnodes : ∀ nodes : List (UInt16 × Nat), (∀ e ∈ nodes, config.nodes[e.2]? = some e.1) →
      ∀ sim : Simulator queue R, contract.HostedBy config sim → sim.globalTime = 0 →
        ∃ sim', nodes.foldlM (fun sim e => sim.calls e.2 (config.initOf protocol chances e.2 e.1).2) sim =
          some sim' ∧ contract.HostedBy config sim' := by
    intro nodes
    induction nodes with
    | nil => exact fun _ sim h _ => ⟨sim, rfl, h⟩
    | cons e nodes ih =>
      intro hids sim h hzero
      obtain ⟨hid, hids⟩ := List.forall_mem_cons.mp hids
      have hallows : contract.Allows config e.2 sim.globalTime (config.initOf protocol chances e.2 e.1).2 := by
        rw [hzero]
        exact (hkept.init ⟨0, (chances e.2).fresh, (chances e.2).layout⟩ e.2 e.1 hid).2
      obtain ⟨mid, hcalls, hmid, htime⟩ := h.calls hconfig (List.getElem?_eq_some_iff.mp hid).1 hallows
      obtain ⟨sim', hrest, hsim'⟩ := ih hids mid hmid (htime.trans hzero)
      refine ⟨sim', ?_, hsim'⟩
      rw [List.foldlM_cons, hcalls]
      exact hrest
  have hpushed := (blank hkept queue chances).pushEvents hconfig hkept
  have hzero : ((Simulator.blank queue config protocol chances).pushEvents config.events).globalTime = 0 := by
    have hkeeps (events : List (UInt32 × ConfigEvent)) (sim : Simulator queue R) :
        (sim.pushEvents events).globalTime = sim.globalTime := by
      induction events generalizing sim with
      | nil => rfl
      | cons e events ih => exact ih _
    exact hkeeps config.events _
  exact hnodes config.nodes.zipIdx (fun e he => List.mem_zipIdx_iff_getElem?.mp he) _ hpushed hzero

end Contract.HostedBy

end Comp556.Sim
