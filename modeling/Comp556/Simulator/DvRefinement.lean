import Comp556.Simulator.DvUnderWay

/-!
# The simulator runs a distance-vector network

With delays that never change, a turn of the simulator is a step of the network of distance-vector routers, as
long as DV packets stay in order and no port alarm finds anything past its deadline.
-/

namespace Comp556.Sim

open Router Dv Simulator

variable {queue : EventQueue} {config : Config} {ln ln' a b node : Nat} {p q u v : UInt16} {limit : Nat}
variable {net net' : DvNet} {nodes : List (Node Router)} {rest : Multiset Event} {e : Event}
    {m m' : Nat × Packet}
variable {news : List Event} {out : Router × List SysCall} {sim sim' : Simulator queue Router} {chance : Chance}
variable {turns : List Turn} {t : Turn}

/-- The routers at the nodes are those of the network, and the DV packets of each link are under way in the
order of its channel. -/
structure Mirrors (config : Config) (net : DvNet) (nodes : List (Node Router)) (events : Multiset Event) :
    Prop where
  router : ∀ (i : Nat) (u : UInt16) (rp : Router), config.nodes[i]? = some u →
    nodes[i]? = some ⟨u, config.linkVector i, rp⟩ → rp = net.router u
  channel : ∀ ln a p b q v u, config.Carries ln a p b q → config.nodes[a]? = some v →
    config.nodes[b]? = some u → InSequence (underWay events ln b) (net.channel v u)

/-- Every packet arrives at the port of the link that it was put on. -/
def Landing (config : Config) (events : Multiset Event) : Prop :=
  ∀ e ∈ events, ∀ dest dport pkt origin, e.body = .recvPkt dest dport pkt origin →
    (config.linkVector dest)[dport.toNat]? = some origin.ln

section Events

variable (hconfig : config.WellFormed) (hcarries : config.Carries ln a p b q)
variable (hv : config.nodes[a]? = some v) (hu : config.nodes[b]? = some u)
include hconfig hcarries hv hu

/-- The event that is about the packet `m` on a link is gone. -/
theorem Mirrors.drop (h : Mirrors config net nodes (e ::ₘ rest)) (hm : e.underWay ln b = some m)
    {left : List Packet} (hleft : InSequence (underWay rest ln b) left) (hrouter : net'.router = net.router)
    (hchannel : ∀ x y, net'.channel x y = if x = v ∧ y = u then left else net.channel x y) :
    Mirrors config net' nodes rest where
  router := hrouter ▸ h.router
  channel ln' a' p' b' q' x y hcarries' hx hy := by
    rw [hchannel]
    split
    · rename_i hpair
      obtain ⟨rfl, rfl⟩ := hpair
      obtain rfl := hconfig.node_of_id hv hx
      obtain rfl := hconfig.node_of_id hu hy
      obtain rfl := hconfig.carries_link hcarries hcarries'
      exact hleft
    · rename_i hpair
      have hold := h.channel ln' a' p' b' q' x y hcarries' hx hy
      have hnone : e.underWay ln' b' = none := by
        refine Option.eq_none_iff_forall_ne_some.mpr fun m' hm' => hpair ?_
        obtain ⟨rfl, rfl, -⟩ := Event.underWay_unique hm hm'
        obtain ⟨rfl, -⟩ := hconfig.carries_start hcarries hcarries'
        exact ⟨Option.some.inj (hx.symm.trans hv), Option.some.inj (hy.symm.trans hu)⟩
      rwa [underWay, Multiset.filterMap_cons_none _ _ hnone] at hold

theorem Mirrors.take (h : Mirrors config net nodes (e ::ₘ rest)) (hm : e.underWay ln b = some m)
    (hfirst : ∀ f ∈ rest, ∀ n, f.underWay ln b = some n → m.1 ≤ n.1) :
    ∃ left, net.channel v u = m.2 :: left ∧ Mirrors config (net.take v u) nodes rest := by
  have hsequence := h.channel ln a p b q v u hcarries hv hu
  rw [underWay, Multiset.filterMap_cons_some _ _ _ hm] at hsequence
  obtain ⟨left, hchannel, hleft⟩ := hsequence.head fun n hn => by
    obtain ⟨f, hf, hn⟩ := (Multiset.mem_filterMap _ _).mp hn
    exact hfirst f hf n hn
  refine ⟨left, hchannel, h.drop hconfig hcarries hv hu hm hleft rfl fun x y => ?_⟩
  simp only [DvNet.take]
  split
  · rename_i hpair
    rw [hpair.1, hpair.2, hchannel, List.tail_cons]
  · rfl

theorem Mirrors.lose (h : Mirrors config net nodes (e ::ₘ rest)) (hm : e.underWay ln b = some m) :
    ∃ left, left.Sublist (net.channel v u) ∧ Mirrors config (net.lose v u left) nodes rest := by
  have hsequence := h.channel ln a p b q v u hcarries hv hu
  rw [underWay, Multiset.filterMap_cons_some _ _ _ hm] at hsequence
  obtain ⟨left, hsub, hleft⟩ := hsequence.lose
  exact ⟨left, hsub, h.drop hconfig hcarries hv hu hm hleft rfl fun _ _ => rfl⟩

end Events

theorem Mirrors.skip (h : Mirrors config net nodes (e ::ₘ rest)) (hnone : ∀ ln b, e.underWay ln b = none) :
    Mirrors config net nodes rest where
  router := h.router
  channel ln a p b q v u hcarries hv hu := by
    have hold := h.channel ln a p b q v u hcarries hv hu
    rwa [underWay, Multiset.filterMap_cons_none _ _ (hnone ln b)] at hold

theorem Mirrors.carry (h : Mirrors config net nodes (e ::ₘ rest)) {n : Event}
    (hsame : ∀ ln b, n.underWay ln b = e.underWay ln b) : Mirrors config net nodes (n ::ₘ rest) where
  router := h.router
  channel ln a p b q v u hcarries hv hu := by
    have hold := h.channel ln a p b q v u hcarries hv hu
    have hway : underWay (n ::ₘ rest) ln b = underWay (e ::ₘ rest) ln b := by
      rw [underWay, underWay, ← Multiset.singleton_add, ← Multiset.singleton_add e, Multiset.filterMap_add,
        Multiset.filterMap_add]
      congr 1
      cases hm : e.underWay ln b with
      | none => rw [← Multiset.cons_zero, ← Multiset.cons_zero, Multiset.filterMap_cons_none _ _ hm,
          Multiset.filterMap_cons_none _ _ ((hsame ln b).trans hm)]
      | some m => rw [← Multiset.cons_zero, ← Multiset.cons_zero, Multiset.filterMap_cons_some _ _ _ hm,
          Multiset.filterMap_cons_some _ _ _ ((hsame ln b).trans hm)]
    rwa [hway]

theorem Mirrors.after (hconfig : config.WellFormed) (hsteady : config.Steady limit)
    (h : Mirrors config net nodes rest) (hu : config.nodes[node]? = some u) {now : UInt32} {first : Nat}
    (hcalls : List.Forall₂ (config.Performs node now) out.2 news)
    (haddresses : news.map Event.address = List.range' first news.length)
    (hbefore : ∀ f ∈ rest, ∀ ln b m, f.underWay ln b = some m → m.1 < first) :
    Mirrors config (net.after (config.topology hconfig hsteady) u out)
      (nodes.modify node fun this => { this with rp := out.1 }) (rest + news) where
  router i x rp hx hthis := by
    rw [List.getElem?_modify] at hthis
    by_cases hi : node = i
    · subst hi
      obtain rfl := Option.some.inj (hu.symm.trans hx)
      simp only [if_true, Option.map_eq_map, Option.map_eq_some_iff] at hthis
      obtain ⟨this, -, heq⟩ := hthis
      simp [DvNet.after, ← (Node.mk.inj heq).2.2]
    · have hne : x ≠ u := fun heq => hi (hconfig.node_of_id hu (heq ▸ hx))
      simp only [if_neg hi, Option.map_eq_map, Option.map_id'] at hthis
      simp only [DvNet.after, Function.update_of_ne hne]
      exact h.router i x rp hx hthis
  channel ln a p b q v w hcarries hv hw := by
    have hnews := underWay_of_calls hconfig hsteady hcarries hv hw hcalls
    obtain ⟨hsorted, hlater⟩ := underWay_sorted ln b hcalls haddresses
    have hsequence := (h.channel ln a p b q v w hcarries hv hw).append hsorted fun m hm n hn => by
      obtain ⟨f, hf, hm⟩ := (Multiset.mem_filterMap _ _).mp hm
      exact Nat.lt_of_lt_of_le (hbefore f hf ln b m hm) (hlater n hn)
    rw [hnews] at hsequence
    have hsender : a = node ↔ v = u := by
      constructor
      · rintro rfl
        exact Option.some.inj (hv.symm.trans hu)
      · rintro rfl
        exact hconfig.node_of_id hv hu
    have hchannel : (net.after (config.topology hconfig hsteady) u out).channel v w = net.channel v w ++
        if a = node then posted (config.topology hconfig hsteady) v w out.2 else [] := by
      simp only [DvNet.after, hsender]
    rw [hchannel, underWay, Multiset.filterMap_add, Multiset.filterMap_coe]
    exact hsequence

def Event.portAlarm (e : Event) : Option Nat :=
  match e.body with
  | .alarm node .port => some node
  | _ => none

/-- No DV packet is overtaken, and the port alarm finds nothing past its deadline. -/
structure Calm (sim : Simulator queue Router) (chance : Chance) : Prop where
  order : InOrder sim chance
  port : ∀ e ∈ queue.top sim.eventQ, ∀ node ∈ e.portAlarm, ∀ this ∈ sim.nodes[node]?,
    NothingDue ((sim.at_ e.time).env chance) this.rp

instance (env : Env) (r : Router) : Decidable (NothingDue env r) :=
  decidable_of_iff
    ((r.neighborTable.entries.all fun e => decide (env.time < e.2.timeout)) ∧
      (r.routingTable.entries.all fun e => (r.dvTime.get? e.1).all fun time =>
        decide (e.2.nextHop ≠ e.1 → env.time < time)) ∧ env.time < renewed env) <| by
    simp only [List.all_eq_true, Option.all_eq_true, decide_eq_true_iff]
    exact ⟨fun h => ⟨fun n link hlink => h.1 (n, link) ((Table.mem_entries_iff ..).mpr hlink),
        fun d route time hroute htime => h.2.1 (d, route) ((Table.mem_entries_iff ..).mpr hroute) time htime,
          h.2.2⟩,
      fun h => ⟨fun e he => h.links e.1 e.2 ((Table.mem_entries_iff ..).mp he),
        fun e he time htime => h.routes e.1 e.2 time ((Table.mem_entries_iff ..).mp he) htime, h.renewal⟩⟩

instance (sim : Simulator queue Router) (chance : Chance) : Decidable (Calm sim chance) :=
  decidable_of_iff (InOrder sim chance ∧ ∀ e ∈ queue.top sim.eventQ, ∀ node ∈ e.portAlarm,
    ∀ this ∈ sim.nodes[node]?,
      NothingDue ((sim.at_ e.time).env chance) this.rp)
    ⟨fun h => ⟨h.1, h.2⟩, fun h => ⟨h.order, h.port⟩⟩

/-- The network takes a step, or none. -/
def Follows (topo : Dv.Topology) (net net' : DvNet) : Prop := net' = net ∨ DvStep topo net net'

private theorem handle_copy {pkt : Packet} (h : Written v u pkt) (env : Env) (r : Router) (port : UInt16) :
    handle env r (.packet port (copyPacket chance pkt)) = handle env r (.packet port pkt) := by
  have hdv : isDv pkt := decide_eq_true h.type
  rw [h.handle_eq env r port]
  obtain ⟨envS, s, _, rfl, -, hfew, -⟩ := h
  have hsize : (dvPacket envS s u).size ≠ 0 := by
    intro hzero
    have hsize := dvPacket_size envS s u
    rw [hzero, UInt16.toNat_zero] at hsize
    omega
  have hreads := (dvPacket_reads_iff envS s u r).mpr (by omega)
  exact (recv_copy_of_isDv hdv hsize .dv env port chance r).trans
    (recv_congr env port fun i hi => copyPacket_memory (hreads i hi))

private theorem after_same (topo : Dv.Topology) (net : DvNet) (u : UInt16) :
    net.after topo u (net.router u, []) = net := by
  simp [DvNet.after, posted]

private theorem routine_of_expects {port : UInt16} {time : UInt32} {pkt : Packet}
    (h : config.Expects .dv node port time pkt) (hdv : PacketType.ofCode (pkt.block.memory 0) ≠ some .dv)
    (hpong : PacketType.ofCode (pkt.block.memory 0) ≠ some .pong) (env : Env) (r : Router) :
    Routine env r (.packet port pkt) := by
  obtain ⟨-, hexpects⟩ := h
  simp only [Routine]
  split
  · rename_i htype
    exact hpong htype
  · rename_i htype
    exact hdv htype
  · rename_i htype
    rw [htype] at hexpects
    cases hexpects
  · trivial

private theorem routine_of_injected (hconfig : config.WellFormed) {time : UInt32} {pkt : Packet}
    (h : config.Expects .dv node specialPort time pkt) (env : Env) (r : Router) :
    Routine env r (.packet specialPort pkt) := by
  have hport : ¬ specialPort < config.numPorts node := by
    rw [UInt16.lt_iff_toNat_lt, hconfig.numPorts_toNat]
    have hlt := hconfig.linkVector_length_lt node
    have hspecial : specialPort.toNat = 65535 := rfl
    omega
  refine routine_of_expects h (fun htype => ?_) (fun htype => ?_) env r
  · obtain ⟨-, hexpects⟩ := h
    rw [htype] at hexpects
    exact hport hexpects.2.1.1
  · obtain ⟨-, hexpects⟩ := h
    rw [htype] at hexpects
    exact hport hexpects.1.1

private theorem exists_carries_into (hconfig : config.WellFormed) (hp : p < config.numPorts b) :
    ∃ ln a q v, config.Carries ln a q b p ∧ config.nodes[a]? = some v ∧ config.attached b p = v := by
  obtain ⟨ln, a, q, hcarries, -, ha, -⟩ := hconfig.exists_carries hp
  have hid := List.getElem?_eq_getElem ha
  exact ⟨ln, a, q, _, hcarries.symm, hid, hconfig.carries_attached hcarries hid⟩

private theorem pongOver_of_expects (hconfig : config.WellFormed) (hsteady : config.Steady limit)
    (hu : config.nodes[node]? = some u) {env : Env} {port : UInt16} {pkt : Packet}
    (h : config.Expects .dv node port env.time pkt)
    (htype : PacketType.ofCode (pkt.block.memory 0) = some .pong)
    (hdest : ntohs (pkt.block.memory.load16 6) = u) :
    ∃ v, config.portTo u v = some port ∧ PongOver (config.topology hconfig hsteady) env u v pkt := by
  obtain ⟨-, hexpects⟩ := h
  rw [htype] at hexpects
  obtain ⟨hfrom, ln, there, back, hport, hthere, hback, helapsed⟩ := hexpects
  obtain ⟨ln', a, q, v, hcarries, hv, hattached⟩ := exists_carries_into hconfig hfrom.1
  obtain rfl := Option.some.inj (hport.symm.trans hcarries.into)
  obtain ⟨link, hlink, -⟩ := hcarries.joins
  refine ⟨v, portTo_of_carries hconfig hcarries.symm hu hv, htype, hfrom.2.trans hattached, hdest, ?_⟩
  change _ = config.cost u v
  rw [cost_of_carries hconfig hcarries.symm hu hv hlink, roundTripTime, helapsed, hsteady.hasDelay hlink hthere,
    hsteady.hasDelay hlink hback]
  rfl

/-- What a turn needs to know of the run so far. -/
structure Tracked (config : Config) (turns : List Turn) (sim : Simulator queue Router) : Prop where
  hosted : (routerContract config .dv).HostedBy config sim
  onTime : OnTime turns sim
  sequenced : Sequenced turns sim
  landing : Landing config (queue.elements sim.eventQ)

section Turn

variable (h : Tracked config turns sim)
variable (hturned : Turned config (routingProtocolImpl .dv) sim chance t.dispatched rest news sim')
include h hturned

theorem Tracked.numbered {f : Event} (hf : f ∈ rest) {m : Nat × Packet} (hm : f.underWay ln b = some m) :
    m.1 < sim.created := by
  have hmem : f ∈ queue.elements sim.eventQ := hturned.before ▸ Multiset.mem_cons_of_mem hf
  have hflight := f.flying_eq
  rw [Event.underWay_eq_some.mp hm, Option.map_some] at hflight
  rcases Option.or_eq_some_iff.mp hflight.symm with hleft | ⟨-, hright⟩
  · have hsent : m.1 = f.address := Event.sent_of_dvDeparture hleft
    exact hsent ▸ h.sequenced.allocated f hmem
  · exact (h.sequenced.departed _ (.inl ⟨f, hmem, hright⟩)).1

theorem Tracked.oldest (hturn : sim.turn (routingProtocolImpl .dv) chance = some (t, sim'))
    (horder : InOrder sim chance)
    {n : Nat} (harrives : t.dispatched.dvArrival = some ⟨ln, b, n⟩) {f : Event} (hf : f ∈ rest)
    {m : Nat × Packet} (hm : f.underWay ln b = some m) : n ≤ m.1 := by
  have hsequenced := h.sequenced.turn horder hturn
  have hmem : f ∈ queue.elements sim'.eventQ := hturned.after ▸ Multiset.mem_add.mpr (.inl hf)
  have hflight := f.flying_eq
  rw [Event.underWay_eq_some.mp hm, Option.map_some] at hflight
  rcases Option.or_eq_some_iff.mp hflight.symm with hleft | ⟨-, hright⟩
  · exact (hsequenced.departed _ (.inr ⟨t, by simp, harrives⟩)).2 f hmem _ rfl _ hleft ⟨rfl, rfl⟩
  · exact hsequenced.waiting t (by simp) f hmem _ harrives _ hright ⟨rfl, rfl⟩

variable (hconfig : config.WellFormed) (hsteady : config.Steady limit)
variable (hmirrors : Mirrors config net sim.nodes (queue.elements sim.eventQ))
include hconfig hsteady hmirrors

section Handled

variable (hid : config.nodes[node]? = some u)
variable (hcalls : List.Forall₂ (config.Performs node t.dispatched.time) out.2 news)
variable (hnodes : sim'.nodes = (sim.setRp node out.1).nodes)
include hid hcalls hnodes

omit hmirrors in
theorem Tracked.after (hleft : Mirrors config net sim.nodes rest) :
    Mirrors config (net.after (config.topology hconfig hsteady) u out) sim'.nodes
      (queue.elements sim'.eventQ) := by
  rw [hnodes, hturned.after]
  exact hleft.after hconfig hsteady hid hcalls hturned.addresses fun f hf ln b m hm => h.numbered hturned hf hm

theorem Tracked.routine {event : Comp556.Event} (hflying : t.dispatched.flying = none)
    (hroutine : Routine ((sim.at_ t.dispatched.time).env chance) (net.router u) event)
    (hrun : handle ((sim.at_ t.dispatched.time).env chance) (net.router u) event = some out) :
    ∃ net', Follows (config.topology hconfig hsteady) net net' ∧
      Mirrors config net' sim'.nodes (queue.elements sim'.eventQ) := by
  rw [hturned.before] at hmirrors
  have hleft := hmirrors.skip fun ln b => by rw [Event.underWay, hflying, Option.bind_none]
  have hafter := h.after hturned hconfig hsteady hid hcalls hnodes hleft
  exact ⟨_, .inr (.routine _ hroutine hrun), hafter.router, hafter.channel⟩

theorem Tracked.delivers (hreach : net.Reachable (config.topology hconfig hsteady))
    (horder : InOrder sim chance)
    (hturn : sim.turn (routingProtocolImpl .dv) chance = some (t, sim')) {dport : UInt16} {pkt : Packet}
    {origin : Origin} (hbody : t.dispatched.body = .recvPkt node dport pkt origin) (hdv : isDv pkt)
    (hrun : handle ((sim.at_ t.dispatched.time).env chance) (net.router u)
      (.packet dport (copyPacket chance pkt)) =
      some out) :
    ∃ net', Follows (config.topology hconfig hsteady) net net' ∧
      Mirrors config net' sim'.nodes (queue.elements sim'.eventQ) := by
  have hmem : t.dispatched ∈ queue.elements sim.eventQ := hturned.before ▸ Multiset.mem_cons_self _ _
  have hport := h.landing _ hmem _ _ _ _ hbody
  obtain ⟨ln, a, q, v, hcarries, hv, -⟩ := exists_carries_into hconfig (hconfig.lt_numPorts hport)
  obtain rfl := Option.some.inj (hcarries.into.symm.trans hport)
  have hunder : t.dispatched.underWay origin.ln node = some (origin.sent, pkt) := by
    rw [Event.underWay_eq_some, Event.flying, hbody]
    simp [hdv]
  have harrives : t.dispatched.dvArrival = some ⟨origin.ln, node, origin.sent⟩ := by
    simp [Event.dvArrival, hbody, hdv]
  rw [hturned.before] at hmirrors
  obtain ⟨left, hhead, hleft⟩ := hmirrors.take hconfig hcarries hv hid hunder fun f hf m hm =>
    h.oldest hturned hturn horder harrives hf hm
  have hwritten := (settling_of_reachable (topology_small hconfig hsteady) hreach).sound.written v u pkt
    (by simp [hhead])
  rw [handle_copy hwritten] at hrun
  have hportTo : (config.topology hconfig hsteady).portTo u v = some dport :=
    portTo_of_carries hconfig hcarries.symm hid hv
  exact ⟨_, .inr (.deliver ⟨_, v, u, dport, pkt, left, out, hportTo, hhead, hrun, rfl⟩),
    h.after hturned hconfig hsteady hid hcalls hnodes hleft⟩

theorem Tracked.pong {dport : UInt16} {pkt : Packet}
    (hflying : t.dispatched.flying = none)
    (hexpects : config.Expects .dv node dport t.dispatched.time pkt)
    (htype : PacketType.ofCode (pkt.block.memory 0) = some .pong)
    (hrun : handle ((sim.at_ t.dispatched.time).env chance) (net.router u) (.packet dport pkt) = some out)
    (hself : (net.router u).routerId = u ∧ (net.router u).protocolType = .dv) :
    ∃ net', Follows (config.topology hconfig hsteady) net net' ∧
      Mirrors config net' sim'.nodes (queue.elements sim'.eventQ) := by
  rw [hturned.before] at hmirrors
  have hleft := hmirrors.skip fun ln b => by rw [Event.underWay, hflying, Option.bind_none]
  have hafter := h.after hturned hconfig hsteady hid hcalls hnodes hleft
  by_cases hdest : ntohs (pkt.block.memory.load16 6) = u
  · have hnow : config.Expects .dv node dport ((sim.at_ t.dispatched.time).env chance).time pkt := hexpects
    obtain ⟨v, hport, hpong⟩ := pongOver_of_expects hconfig hsteady hid hnow htype hdest
    exact ⟨_, .inr (.pong _ hport hpong hrun), hafter.router, hafter.channel⟩
  · have hkept : handle ((sim.at_ t.dispatched.time).env chance) (net.router u) (.packet dport pkt) =
        some (net.router u, []) := by
      simp only [handle, Router.recv, htype]
      rw [recvPong_dv _ _ _ _ hself.2, hself.1, if_neg (Ne.symm hdest)]
    obtain rfl := Option.some.inj (hrun.symm.trans hkept)
    rw [after_same] at hafter
    exact ⟨net, .inl rfl, hafter⟩

theorem Tracked.handles (hreach : net.Reachable (config.topology hconfig hsteady)) (hcalm : Calm sim chance)
    (hturn : sim.turn (routingProtocolImpl .dv) chance = some (t, sim')) {event : Comp556.Event} {rp : Router}
    (hbrings : t.dispatched.brings chance = some (node, event))
    (hthis : sim.nodes[node]? = some ⟨u, config.linkVector node, rp⟩)
    (hhandle : (routingProtocolImpl .dv).handle ((sim.at_ t.dispatched.time).env chance) rp event = some out) :
    ∃ net', Follows (config.topology hconfig hsteady) net net' ∧
      Mirrors config net' sim'.nodes (queue.elements sim'.eventQ) := by
  obtain rfl := hmirrors.router node u rp hid hthis
  have hmem : t.dispatched ∈ queue.elements sim.eventQ := hturned.before ▸ Multiset.mem_cons_self _ _
  have hfits := h.hosted.events t.dispatched hmem
  have hrun : handle ((sim.at_ t.dispatched.time).env chance) (net.router u) event = some out := by
    cases event <;> exact hhandle
  have hinv := (settling_of_reachable (topology_small hconfig hsteady) hreach).sound.router u
  cases hbody : t.dispatched.body with
  | changeDelay link delay | linkDie dyingLink | linkComeUp upcomingLink | xmitPktOnLink dest dport ln pkt =>
    rw [Event.brings, hbody] at hbrings
    cases hbrings
  | xmitPktEndToEnd src pkt =>
    rw [hbody] at hfits
    have hflying : t.dispatched.flying = none := by rw [Event.flying, hbody]
    rw [Event.brings, hbody] at hbrings
    obtain ⟨rfl, rfl⟩ := Prod.mk.inj (Option.some.inj hbrings)
    exact h.routine hturned hconfig hsteady hmirrors hid hcalls hnodes hflying
      (routine_of_injected hconfig (hfits.2 chance t.dispatched.time) _ _) hrun
  | alarm rp data =>
    rw [hbody] at hfits
    have hflying : t.dispatched.flying = none := by rw [Event.flying, hbody]
    rw [Event.brings, hbody] at hbrings
    obtain ⟨rfl, rfl⟩ := Prod.mk.inj (Option.some.inj hbrings)
    refine h.routine hturned hconfig hsteady hmirrors hid hcalls hnodes hflying ?_ hrun
    cases data with
    | ping | dv => trivial
    | ls => exact absurd rfl hfits.2
    | port => exact hcalm.port _ (turn_effect hturn).1 rp (by rw [Event.portAlarm, hbody]; rfl) _ hthis
  | recvPkt dest dport pkt origin =>
    rw [hbody] at hfits
    have hexpects := hfits.2 chance
    have htype : (copyPacket chance pkt).block.memory 0 = pkt.block.memory 0 := copyPacket_memory hexpects.1
    rw [Event.brings, hbody] at hbrings
    obtain ⟨rfl, rfl⟩ := Prod.mk.inj (Option.some.inj hbrings)
    by_cases hdv : isDv pkt
    · exact h.delivers hturned hconfig hsteady hmirrors hid hcalls hnodes hreach hcalm.order hturn hbody hdv
        hrun
    have hflying : t.dispatched.flying = none := by simp [Event.flying, hbody, hdv]
    have hdv' : PacketType.ofCode ((copyPacket chance pkt).block.memory 0) ≠ some .dv := by
      rw [htype]
      exact fun heq => hdv (decide_eq_true heq)
    by_cases hpong : PacketType.ofCode ((copyPacket chance pkt).block.memory 0) = some .pong
    · exact h.pong hturned hconfig hsteady hmirrors hid hcalls hnodes hflying hexpects hpong hrun
        ⟨hinv.routerId, hinv.mode⟩
    · exact h.routine hturned hconfig hsteady hmirrors hid hcalls hnodes hflying
        (routine_of_expects hexpects hdv' hpong _ _) hrun

end Handled

theorem Tracked.follows (hreach : net.Reachable (config.topology hconfig hsteady)) (hcalm : Calm sim chance)
    (hturn : sim.turn (routingProtocolImpl .dv) chance = some (t, sim')) :
    ∃ net', Follows (config.topology hconfig hsteady) net net' ∧
      Mirrors config net' sim'.nodes (queue.elements sim'.eventQ) := by
  have hmem : t.dispatched ∈ queue.elements sim.eventQ := hturned.before ▸ Multiset.mem_cons_self _ _
  have hfits := h.hosted.events t.dispatched hmem
  have hidle (hmirrors : Mirrors config net sim'.nodes (queue.elements sim'.eventQ)) :
      ∃ net', Follows (config.topology hconfig hsteady) net net' ∧
        Mirrors config net' sim'.nodes (queue.elements sim'.eventQ) :=
    ⟨net, .inl rfl, hmirrors⟩
  cases hturned.dispatched with
  | handled hbrings hid hthis hhandle hcalls hnodes hlinks =>
    exact h.handles hturned hconfig hsteady hmirrors hid hcalls hnodes hreach hcalm hturn hbrings hthis hhandle
  | @carried dest dport ln pkt link hbody hlink hpass hnews hnodes hlinks =>
    refine hidle ?_
    rw [hturned.before] at hmirrors
    rw [hturned.after, hnews, hnodes, add_comm, Multiset.coe_singleton, Multiset.singleton_add]
    refine hmirrors.carry fun ln' b => ?_
    rw [Event.underWay, Event.underWay, Event.flying, Event.flying, hbody]
  | @lost dest dport ln pkt link hbody hlink hpass hnews hnodes hlinks =>
    rw [hturned.before] at hmirrors
    rw [hturned.after, hnews, hnodes, Multiset.coe_nil, add_zero]
    by_cases hdv : isDv pkt
    · rw [hbody] at hfits
      obtain ⟨a, p, hcarries, -⟩ := hfits
      obtain ⟨link₀, hlink₀, hjoins⟩ := hcarries.joins
      obtain ⟨ha, hdest, -⟩ := hconfig.joins_ends hlink₀ hjoins
      have hunder : t.dispatched.underWay ln dest = some (t.dispatched.address, pkt) := by
        rw [Event.underWay_eq_some, Event.flying, hbody]
        simp [hdv]
      obtain ⟨left, hsub, hleft⟩ := hmirrors.lose hconfig hcarries (List.getElem?_eq_getElem ha)
        (List.getElem?_eq_getElem hdest) hunder
      exact ⟨_, .inr (.lose hsub), hleft⟩
    · have hflying : t.dispatched.flying = none := by simp [Event.flying, hbody, hdv]
      rw [hturned.after, hnews, hnodes, Multiset.coe_nil, add_zero] at hidle
      exact hidle (hmirrors.skip fun ln b => by rw [Event.underWay, hflying, Option.bind_none])
  | relinked honLink hlink hnews hnodes hlinks =>
    have hflying : t.dispatched.flying = none := by
      unfold Event.onLink at honLink
      unfold Event.flying
      split at honLink <;> simp_all
    refine hidle ?_
    rw [hturned.before] at hmirrors
    rw [hturned.after, hnews, hnodes, Multiset.coe_nil, add_zero]
    exact hmirrors.skip fun ln b => by rw [Event.underWay, hflying, Option.bind_none]

end Turn

theorem Landing.turned (hlanding : Landing config (queue.elements sim.eventQ))
    (hhosted : (routerContract config .dv).HostedBy config sim)
    (hturned : Turned config (routingProtocolImpl .dv) sim chance t.dispatched rest news sim') :
    Landing config (queue.elements sim'.eventQ) := by
  have hmem : t.dispatched ∈ queue.elements sim.eventQ := hturned.before ▸ Multiset.mem_cons_self _ _
  intro f hf dest dport pkt origin hbody
  rw [hturned.after, Multiset.mem_add, Multiset.mem_coe] at hf
  rcases hf with hf | hf
  · exact hlanding f (hturned.before ▸ Multiset.mem_cons_of_mem hf) dest dport pkt origin hbody
  · cases hturned.dispatched with
    | handled hbrings hid hthis hhandle hcalls hnodes hlinks =>
      obtain ⟨c, -, hperforms⟩ := forall₂_exists_left hcalls hf
      cases c with
      | setAlarm duration alarm => exact absurd (hperforms.2.symm.trans hbody) (by simp)
      | send port pkt' =>
        obtain ⟨-, ln, b, q, -, hbody'⟩ := hperforms
        exact absurd (hbody'.symm.trans hbody) (by simp)
    | @carried dest' dport' ln pkt' link hbody' hlink hpass hnews hnodes hlinks =>
      rw [hnews, List.mem_singleton] at hf
      subst hf
      obtain ⟨rfl, rfl, rfl, rfl⟩ := EventBody.recvPkt.inj hbody
      have hfits := hhosted.events t.dispatched hmem
      rw [hbody'] at hfits
      obtain ⟨a, p, hcarries, -⟩ := hfits
      exact hcarries.into
    | lost hbody' hlink hpass hnews hnodes hlinks =>
      rw [hnews] at hf
      cases hf
    | relinked honLink hlink hnews hnodes hlinks =>
      rw [hnews] at hf
      cases hf

theorem Tracked.turn (hconfig : config.WellFormed) (hdata : config.SendsData) (h : Tracked config turns sim)
    (hrunning : sim.ended = false) (horder : InOrder sim chance)
    (hturn : sim.turn (routingProtocolImpl .dv) chance = some (t, sim')) (hfit : sim'.overflowed = false) :
    Tracked config (turns ++ [t]) sim' := by
  have hkept := Config.routerContract_keptBy hconfig hdata .dv
  obtain ⟨t', sim'', hturn', hhosted⟩ := h.hosted.turn hconfig hkept hrunning chance
  obtain ⟨rfl, rfl⟩ := Prod.mk.inj (Option.some.inj (hturn.symm.trans hturn'))
  obtain ⟨rest, news, hturned⟩ := h.hosted.turned hconfig hkept h.onTime hturn hfit
  exact ⟨hhosted, h.onTime.turn hturn hfit, h.sequenced.turn horder hturn, h.landing.turned h.hosted hturned⟩

section Start

variable {chances : Nat → Chance} (hconfig : config.WellFormed) (hdata : config.SendsData)
variable (hstart : started queue config (routingProtocolImpl .dv) chances = some sim)
include hconfig hdata hstart

private theorem started_body {e : Event} (he : e ∈ queue.elements sim.eventQ) :
    e.flying = none ∧ ∀ dest dport pkt origin, e.body ≠ .recvPkt dest dport pkt origin := by
  obtain ⟨pushed, news, hpushed, hnews, helements, -⟩ := Contract.HostedBy.started_performed hconfig
    (Config.routerContract_keptBy hconfig hdata .dv) hstart
  rw [helements, Multiset.mem_add, Multiset.mem_coe, Multiset.mem_coe] at he
  rcases he with he | he
  · have hmem : (e.time, e.body) ∈ config.events.map fun e => (e.1, e.2.body) :=
      hpushed ▸ List.mem_map_of_mem (f := fun e => (e.time, e.body)) he
    obtain ⟨event, -, heq⟩ := List.mem_map.mp hmem
    obtain ⟨-, hbody⟩ := Prod.mk.inj heq
    rw [Event.flying, ← hbody]
    cases event.2 <;> simp [ConfigEvent.body]
  · obtain ⟨⟨node, c⟩, hc, hperforms⟩ := forall₂_exists_left hnews he
    obtain ⟨id, -, hc⟩ := Config.mem_initCalls_iff.mp hc
    rcases mem_initCalls hc with ⟨port, -, rfl⟩ | ⟨duration, alarm, rfl, -⟩
    · obtain ⟨-, ln, b, q, -, hbody⟩ := hperforms
      simp [Event.flying, hbody, isDv, pingPacket_type]
    · simp [Event.flying, hperforms.2]

private theorem started_tracked (hfit : sim.overflowed = false) : Tracked config [] sim where
  hosted := hostedBy_of_runs hconfig hdata hstart .start
  onTime := started_onTime hstart hfit
  sequenced := started_sequenced hstart
  landing _ he _ _ _ _ hbody := ((started_body hconfig hdata hstart he).2 _ _ _ _ hbody).elim

private theorem started_mirrors (hsteady : config.Steady limit) :
    Mirrors config (.start (config.topology hconfig hsteady)) sim.nodes (queue.elements sim.eventQ) where
  router i u rp hu hthis := by
    obtain ⟨_, _, -, -, -, hnodes, -⟩ := Contract.HostedBy.started_performed hconfig
      (Config.routerContract_keptBy hconfig hdata .dv) hstart
    rw [hnodes] at hthis
    simp only [blank, List.getElem?_mapIdx, hu, Option.map_some, Option.some.injEq, Node.mk.injEq] at hthis
    rw [← hthis.2.2]
    change Router.init (config.numPorts i) u .dv = Router.init (config.numPorts (config.nodeOf u)) u .dv
    rw [nodeOf_eq hconfig hu]
  channel ln a p b q v u _ _ _ := by
    have hnone : underWay (queue.elements sim.eventQ) ln b = 0 := by
      refine Multiset.eq_zero_of_forall_notMem fun m hm => ?_
      obtain ⟨e, he, hm⟩ := (Multiset.mem_filterMap _ _).mp hm
      rw [Event.underWay_eq_some, (started_body hconfig hdata hstart he).1] at hm
      cases hm
    rw [hnone]
    exact .nil

theorem network_of_runs {turns : List Turn} {sim' : Simulator queue Router} (hsteady : config.Steady limit)
    (hrun : Runs (routingProtocolImpl .dv) Calm sim turns sim') (hfit : sim'.overflowed = false) :
    Tracked config turns sim' ∧ ∃ net, net.Reachable (config.topology hconfig hsteady) ∧
      Mirrors config net sim'.nodes (queue.elements sim'.eventQ) := by
  induction hrun with
  | start =>
    exact ⟨started_tracked hconfig hdata hstart hfit, _, .refl, started_mirrors hconfig hdata hstart hsteady⟩
  | @turn turns sim sim' chance t _ hrunning hcalm hturn ih =>
    obtain ⟨htracked, net, hreach, hmirrors⟩ := ih (overflowed_of_turn hturn hfit)
    obtain ⟨rest, news, hturned⟩ :=
      htracked.hosted.turned hconfig (Config.routerContract_keptBy hconfig hdata .dv)
      htracked.onTime hturn hfit
    obtain ⟨net', hfollows, hmirrors'⟩ := htracked.follows hturned hconfig hsteady hmirrors hreach hcalm hturn
    refine ⟨htracked.turn hconfig hdata hrunning hcalm.order hturn hfit, net', ?_, hmirrors'⟩
    rcases hfollows with rfl | hstep
    · exact hreach
    · exact hreach.tail hstep

end Start

end Comp556.Sim
