import Comp556.Routing.Handling
import Comp556.Routing.PacketBounds
import Comp556.Simulator.Hosting

/-!
# The routers of a simulation

Every packet that travels names the node it comes from and the time its ping was sent at. So what the
simulator hands to a router is what the results on a router assume, and the cost of a link is the sum of
two of its delays.
-/

namespace Comp556.Sim

open Router Dv Ls

variable {config : Config} {type : ProtocolType} {queue : EventQueue} {ln node a b : Nat} {p q : UInt16}
variable {id : UInt16} {env : Env} {r r' : Router} {pkt : Packet} {chance : Chance}

theorem copyPacket_memory {i : Nat} (hi : i < pkt.size.toNat) :
    (Simulator.copyPacket chance pkt).block.memory i = pkt.block.memory i := by
  have hlt : i < (pkt.block.memory.load 0 pkt.size.toNat).length := by
    rw [Memory.load_length]
    exact hi
  change Memory.store _ 0 (pkt.block.memory.load 0 pkt.size.toNat) i = _
  rw [Memory.store, if_pos (Nat.zero_le _), Nat.sub_zero, List.getElem?_eq_getElem hlt]
  simp [Memory.load]

private theorem copyPacket_load16 {at_ : Nat} (hfits : at_ + 2 ≤ pkt.size.toNat) :
    (Simulator.copyPacket chance pkt).block.memory.load16 at_ = pkt.block.memory.load16 at_ := by
  apply Memory.load16_congr
  intro i hi
  have hlt := List.mem_range'_1.mp hi
  exact copyPacket_memory (by omega)

private theorem copyPacket_load32 {at_ : Nat} (hfits : at_ + 4 ≤ pkt.size.toNat) :
    (Simulator.copyPacket chance pkt).block.memory.load32 at_ = pkt.block.memory.load32 at_ := by
  apply Memory.load32_congr
  intro i hi
  have hlt := List.mem_range'_1.mp hi
  exact copyPacket_memory (by omega)

private theorem copyPacket_readTable (env : Env) (heven : 4 ∣ pkt.size.toNat - 8) :
    readTable env (Simulator.copyPacket chance pkt).block.memory pkt.size =
      readTable env pkt.block.memory pkt.size :=
  readTable_congr env fun i hi => copyPacket_memory (entryBytes_lt heven i hi)

namespace Config

/-- The packets of `xmit` events are data packets. -/
def SendsData (config : Config) : Prop :=
  ∀ time src pkt, (time, .xmitPktEndToEnd src pkt) ∈ config.events →
    0 < pkt.size.toNat ∧ PacketType.ofCode (pkt.block.memory 0) = some .data

def OneWay (config : Config) (node : Nat) (port : UInt16) (elapsed : UInt32) : Prop :=
  ∃ ln, (config.linkVector node)[port.toNat]? = some ln ∧ config.HasDelay ln elapsed

/-- Two delays of the link at a port, one after the other. -/
def BothWays (config : Config) (node : Nat) (port : UInt16) (elapsed : UInt32) : Prop :=
  ∃ ln there back, (config.linkVector node)[port.toNat]? = some ln ∧ config.HasDelay ln there ∧
    config.HasDelay ln back ∧ elapsed = there + back

def Authors (config : Config) (node : Nat) (pkt : Packet) : Prop :=
  config.nodes[node]? = some (ntohs (pkt.block.memory.load16 4))

/-- The destinations that a DV packet lists are nodes. -/
def ListsNodes (config : Config) (pkt : Packet) : Prop :=
  ∀ env, ∀ d ∈ (readTable env pkt.block.memory pkt.size).keys, d ∈ config.nodes

def Sends (config : Config) (type : ProtocolType) (node : Nat) (port : UInt16) (time : UInt32) (pkt : Packet) :
    Prop :=
  0 < pkt.size.toNat ∧
    match PacketType.ofCode (pkt.block.memory 0) with
    | some .ping => 12 ≤ pkt.size.toNat ∧ ntohl (pkt.block.memory.load32 8) = time
    | some .pong => 12 ≤ pkt.size.toNat ∧ config.Authors node pkt ∧
      config.OneWay node port (time - ntohl (pkt.block.memory.load32 8))
    | some .dv => type = .dv ∧ 8 ≤ pkt.size.toNat ∧ 4 ∣ pkt.size.toNat - 8 ∧ config.Authors node pkt ∧
      config.ListsNodes pkt
    | some .ls => type = .ls
    | _ => True

def Expects (config : Config) (type : ProtocolType) (node : Nat) (port : UInt16) (time : UInt32)
    (pkt : Packet) :
    Prop :=
  0 < pkt.size.toNat ∧
    match PacketType.ofCode (pkt.block.memory 0) with
    | some .ping => config.OneWay node port (time - ntohl (pkt.block.memory.load32 8))
    | some .pong => FromAttached (config.attached node) (config.numPorts node) port pkt ∧
      config.BothWays node port (time - ntohl (pkt.block.memory.load32 8))
    | some .dv => type = .dv ∧ FromAttached (config.attached node) (config.numPorts node) port pkt ∧
      config.ListsNodes pkt
    | some .ls => type = .ls
    | _ => True

/-- The cost of every link is what a ping and its pong took. -/
def Timed (config : Config) (node : Nat) (r : Router) : Prop :=
  ∀ n link, r.neighborTable.get? n = some link →
    ∃ elapsed, config.BothWays node link.port elapsed ∧ link.cost = elapsed.toUInt16

/-- A router as it can be at a node. -/
structure Hosts (config : Config) (type : ProtocolType) (node : Nat) (id : UInt16) (r : Router) : Prop where
  reachable : ModeReachable type (config.attached node) (config.numPorts node) id r
  known : type = .dv → ∀ d ∈ r.routingTable.keys, d ∈ config.nodes
  timed : config.Timed node r

end Config

/-- The contract of the routing protocol of this repository. -/
def routerContract (config : Config) (type : ProtocolType) : Contract Router where
  good node r := ∃ id, config.nodes[node]? = some id ∧ config.Hosts type node id r
  sends := config.Sends type
  expects := config.Expects type
  sets alarm := alarm ≠ match type with
    | .dv => .ls
    | .ls => .dv

theorem Config.Carries.symm (h : config.Carries ln a p b q) : config.Carries ln b q a p :=
  ⟨h.into, h.out, h.joins.imp fun _ hlink => ⟨hlink.1, hlink.2.symm⟩⟩

namespace Config.WellFormed

variable (hconfig : config.WellFormed)
include hconfig

theorem lt_numPorts (hport : (config.linkVector node)[p.toNat]? = some ln) : p < config.numPorts node := by
  rw [UInt16.lt_iff_toNat_lt, hconfig.numPorts_toNat]
  exact (List.getElem?_eq_some_iff.mp hport).1

private theorem attached_mem_nodes (hp : p < config.numPorts a) : config.attached a p ∈ config.nodes := by
  obtain ⟨ln, b, q, hcarries, -, hb, -⟩ := hconfig.exists_carries hp
  rw [hconfig.carries_attached hcarries (List.getElem?_eq_getElem hb)]
  exact List.getElem_mem hb

private theorem fromAttached (hcarries : config.Carries ln a p b q) (hauthor : config.Authors a pkt) :
    FromAttached (config.attached b) (config.numPorts b) q pkt :=
  ⟨hconfig.lt_numPorts hcarries.into, (hconfig.carries_attached hcarries.symm hauthor).symm⟩

end Config.WellFormed

private theorem expects_of_sends (hconfig : config.WellFormed) (hcarries : config.Carries ln a p b q)
    {time delay : UInt32} (hdelay : config.HasDelay ln delay) (hsends : config.Sends type a p time pkt) :
    config.Expects type b q (time + delay) (Simulator.copyPacket chance pkt) := by
  obtain ⟨hsize, hsent⟩ := hsends
  refine ⟨hsize, ?_⟩
  have htype : (Simulator.copyPacket chance pkt).block.memory 0 = pkt.block.memory 0 := copyPacket_memory hsize
  have hlater (stamp : UInt32) : time + delay - stamp = time - stamp + delay := by
    rw [UInt32.sub_eq_add_neg, UInt32.sub_eq_add_neg, UInt32.add_assoc, UInt32.add_comm delay, UInt32.add_assoc]
  have hauthors (hfits : 4 + 2 ≤ pkt.size.toNat) (hauthor : config.Authors a pkt) :
      config.Authors a (Simulator.copyPacket chance pkt) := by
    rw [Config.Authors, copyPacket_load16 hfits]
    exact hauthor
  rw [htype]
  cases hcode : PacketType.ofCode (pkt.block.memory 0) with
  | none => trivial
  | some kind =>
    simp only [hcode] at hsent ⊢
    cases kind with
    | data => trivial
    | ls => exact hsent
    | ping =>
      obtain ⟨hfits, rfl⟩ := hsent
      refine ⟨ln, hcarries.into, ?_⟩
      rw [copyPacket_load32 hfits, hlater, UInt32.sub_self, UInt32.zero_add]
      exact hdelay
    | pong =>
      obtain ⟨hfits, hauthor, ln', hport, hthere⟩ := hsent
      obtain rfl := Option.some.inj (hport.symm.trans hcarries.out)
      refine ⟨hconfig.fromAttached hcarries (hauthors (by omega) hauthor),
        ln', _, delay, hcarries.into, hthere, hdelay, ?_⟩
      rw [copyPacket_load32 hfits, hlater]
    | dv =>
      obtain ⟨rfl, hfits, heven, hauthor, hlists⟩ := hsent
      refine ⟨rfl, hconfig.fromAttached hcarries (hauthors (by omega) hauthor), fun env d hd => hlists env d ?_⟩
      rw [← copyPacket_readTable env heven]
      exact hd

private theorem Config.Expects.modeEvent {time : UInt32} (h : config.Expects type node p time pkt) :
    ModeEvent type (config.attached node) (config.numPorts node) (.packet p pkt) := by
  obtain ⟨-, h⟩ := h
  cases type with
  | dv =>
    simp only [ModeEvent, DvEvent]
    cases hcode : PacketType.ofCode (pkt.block.memory 0) with
    | none => trivial
    | some kind =>
      simp only [hcode] at h
      cases kind with
      | data | ping => trivial
      | pong => exact h.1
      | dv => exact h.2.1
      | ls => cases h
  | ls =>
    refine ⟨fun hcode => ?_, fun port packet heq hcode => ?_⟩
    · simp only [hcode] at h
      cases h.1
    · cases heq
      simp only [hcode] at h
      exact h.1

private theorem routerContract_sets {alarm : Alarm} (h : (routerContract config type).sets alarm) :
    ModeEvent type (config.attached node) (config.numPorts node) (.alarm alarm) := by
  cases type with
  | dv => exact h
  | ls =>
    refine ⟨h, fun port packet heq => ?_⟩
    cases heq

private theorem heard_mem_nodes (hconfig : config.WellFormed) {time : UInt32}
    (h : config.Expects type node p time pkt)
    {d : UInt16} (hd : d ∈ heard env r (.packet p pkt)) : d ∈ config.nodes := by
  obtain ⟨-, h⟩ := h
  simp only [heard] at hd
  split at hd
  · rename_i hcode
    simp only [hcode] at h
    obtain ⟨⟨hport, hsource⟩, -⟩ := h
    split at hd
    · rw [List.mem_singleton.mp hd, hsource]
      exact hconfig.attached_mem_nodes hport
    · cases hd
  · rename_i hcode
    simp only [hcode] at h
    obtain ⟨-, -, hlists⟩ := h
    split at hd
    · apply hlists env d
      rw [Table.mem_keys_iff, Table.get?_filter] at hd
      rw [Table.mem_keys_iff]
      exact Option.isSome_of_isSome_filter _ _ hd
    · cases hd
  · cases hd

namespace Config

/-- A packet or an alarm that may come at some time. -/
def Comes (config : Config) (type : ProtocolType) (node : Nat) (time : UInt32) : Comp556.Event → Prop
  | .packet port pkt => config.Expects type node port time pkt
  | .alarm alarm => (routerContract config type).sets alarm

variable {event : Comp556.Event} (hconfig : config.WellFormed) (hid : config.nodes[node]? = some id)
include hconfig hid

theorem Hosts.ports (h : config.Hosts type node id r) :
    PortsMatch (config.attached node) r ∧ r.numPorts = config.numPorts node ∧ r.routerId = id ∧
      r.protocolType = type := by
  have ha := hconfig.attached_wired hid
  exact ⟨(h.reachable.wired.portsMatch ha).1, h.reachable.keeps ha⟩

theorem Hosts.sends (h : config.Hosts type node id r) (h' : config.Hosts type node id r')
    (hcomes : config.Comes type node env.time event) (hmay : MayCall env r r' event (.send p pkt)) :
    p < config.numPorts node ∧ config.Sends type node p env.time pkt := by
  obtain ⟨hports, hnum, hself, -⟩ := h.ports hconfig hid
  obtain ⟨hports', hnum', hself', hmode'⟩ := h'.ports hconfig hid
  have hbehind {n : UInt16} {link : Comp556.Link} (hlink : r'.neighborTable.get? n = some link) :
      link.port < config.numPorts node := hnum' ▸ (hports'.attached_of_link hlink).1
  cases hmay with
  | ping hport =>
    refine ⟨hnum ▸ hport, Nat.zero_lt_succ 11, ?_⟩
    rw [pingPacket_type]
    exact ⟨Nat.le_refl 12, pingPacket_time env r⟩
  | @pong _ packet htype =>
    obtain ⟨-, hping⟩ := hcomes
    rw [htype] at hping
    obtain ⟨ln, hport, hdelay⟩ := hping
    refine ⟨hconfig.lt_numPorts hport, Nat.zero_lt_succ 11, ?_⟩
    rw [pongPacket_type]
    refine ⟨Nat.le_refl 12, ?_, ln, hport, ?_⟩
    · rw [Authors, pongPacket_source, hself]
      exact hid
    · rw [pongPacket_time]
      exact hdelay
  | @dv _ n link hmode hlink =>
    obtain rfl := hmode'.symm.trans hmode
    have hfew : r'.routingTable.size ≤ 16381 := by
      have hsub := (List.subperm_of_subset r'.routingTable.nodup_keys fun d hd => h'.known rfl d hd).length_le
      rw [Table.length_keys] at hsub
      exact hsub.trans hconfig.few
    have hsize := dvPacket_size env r' n
    refine ⟨hbehind hlink, by omega, ?_⟩
    rw [dvPacket_type]
    refine ⟨rfl, by omega, by omega, ?_, fun env' d hd => ?_⟩
    · rw [Authors, dvPacket_source, hself']
      exact hid
    · obtain ⟨a, ha⟩ := Option.isSome_iff_exists.mp ((Table.mem_keys_iff ..).mp hd)
      obtain ⟨route, hroute, -⟩ := readTable_dvPacket env r' n ha
      exact h'.known rfl d ((Table.mem_keys_iff ..).mpr (by rw [hroute]; rfl))
  | @ls _ n link s hmode hlink _ htable =>
    have hfew : s.neighborTable.size ≤ 16380 := by
      have hle := hports'.size_le
      rw [← htable, hnum', hconfig.numPorts_toNat] at hle
      exact hle.trans (Nat.le_of_lt_succ (hconfig.linkVector_length_lt node))
    have hsize := lsPacket_size env s hfew
    refine ⟨hbehind hlink, by omega, ?_⟩
    rw [lsPacket_type]
    exact hmode'.symm.trans hmode
  | forward hlink htype =>
    obtain ⟨hsize, hpacket⟩ := hcomes
    refine ⟨hbehind hlink, hsize, ?_⟩
    rcases htype with htype | htype
    · rw [htype]
      trivial
    · rw [htype] at hpacket ⊢
      exact hpacket

omit hconfig hid in
private theorem Comes.modeEvent (hcomes : config.Comes type node env.time event) :
    ModeEvent type (config.attached node) (config.numPorts node) event := by
  cases event with
  | packet port pkt => exact Expects.modeEvent hcomes
  | alarm alarm => exact routerContract_sets hcomes

theorem Hosts.handles (h : config.Hosts type node id r) (hcomes : config.Comes type node env.time event) :
    ∃ r' calls, handle env r event = some (r', calls) ∧ config.Hosts type node id r' ∧
      (routerContract config type).Allows config node env.time calls := by
  have ha := hconfig.attached_wired hid
  obtain ⟨r', calls, hhandle, hreach, hcalls, hlinks⟩ := h.reachable.handles ha env hcomes.modeEvent
  have hknown (hdv : type = .dv) (d : UInt16) (hd : d ∈ r'.routingTable.keys) : d ∈ config.nodes := by
    subst hdv
    have hlearns := Learns.handle (DvInv.run ha h.reachable) ha hcomes.modeEvent hhandle
    rcases hlearns.known d ((Table.mem_keys_iff ..).mp hd) with hold | hheard
    · exact h.known rfl d ((Table.mem_keys_iff ..).mpr hold)
    · cases event with
      | packet port pkt => exact heard_mem_nodes hconfig hcomes hheard
      | alarm alarm => cases hheard
  have htimed : config.Timed node r' := by
    intro n link hlink
    rcases hlinks n link hlink with hold | ⟨port, packet, rfl, htype, -, rfl⟩
    · exact h.timed n link hold
    · obtain ⟨-, hpong⟩ := hcomes
      rw [htype] at hpong
      exact ⟨_, hpong.2, rfl⟩
  have h' : config.Hosts type node id r' := ⟨hreach, hknown, htimed⟩
  refine ⟨r', calls, hhandle, h', fun port pkt hc => h.sends hconfig hid h' hcomes (hcalls _ hc),
    fun duration alarm hc => ?_⟩
  cases hcalls _ hc with
  | again => exact hcomes

omit hid in
theorem routerContract_keptBy (hdata : config.SendsData) (type : ProtocolType) :
    (routerContract config type).KeptBy config (routingProtocolImpl type) where
  init env node id hid := by
    have hhosts : config.Hosts type node id (Router.init (config.numPorts node) id type) := by
      refine ⟨.refl, fun _ d hd => ?_, fun n link hlink => ?_⟩
      · cases hd
      · cases hlink
    have hcomes : config.Comes type node env.time (.alarm .ping) := by
      cases type <;> exact fun heq => by cases heq
    refine ⟨⟨id, hid, hhosts⟩, fun port pkt hc => ?_, fun duration alarm hc => ?_⟩
    · rcases mem_initCalls hc with ⟨p, hp, heq⟩ | ⟨_, _, heq, -⟩
      · obtain ⟨rfl, rfl⟩ := SysCall.send.inj heq
        exact hhosts.sends hconfig hid hhosts hcomes (.ping hp)
      · cases heq
    · rcases mem_initCalls hc with ⟨_, -, heq⟩ | ⟨_, _, heq, hother⟩
      · cases heq
      · obtain ⟨-, rfl⟩ := SysCall.setAlarm.inj heq
        exact hother
  recv env node port pkt r hnode hgood hexpects := by
    obtain ⟨id, hid, hhosts⟩ := hgood
    have hcomes : config.Comes type node env.time (.packet port pkt) := hexpects
    obtain ⟨r', calls, hhandle, hhosts', hallows⟩ := hhosts.handles hconfig hid hcomes
    exact ⟨(r', calls), hhandle, ⟨id, hid, hhosts'⟩, hallows⟩
  handleAlarm env node alarm r hnode hgood hsets := by
    obtain ⟨id, hid, hhosts⟩ := hgood
    have hcomes : config.Comes type node env.time (.alarm alarm) := hsets
    obtain ⟨r', calls, hhandle, hhosts', hallows⟩ := hhosts.handles hconfig hid hcomes
    exact ⟨(r', calls), hhandle, ⟨id, hid, hhosts'⟩, hallows⟩
  carries chance ln a p b q time delay pkt hcarries hdelay hsends :=
    expects_of_sends hconfig hcarries hdelay hsends
  injects chance start time src pkt hevent := by
    obtain ⟨hsize, htype⟩ := hdata start src pkt hevent
    refine ⟨hsize, ?_⟩
    rw [copyPacket_memory hsize, htype]
    trivial

end Config

variable {R : Type} {sim₀ sim : Simulator queue Router} {turns : List Turn} {chances : Nat → Chance}

theorem hostedBy_of_runs (hconfig : config.WellFormed) (hdata : config.SendsData)
    (hstart : Simulator.started queue config (routingProtocolImpl type) chances = some sim₀)
    (hrun : Simulator.Runs (routingProtocolImpl type) Simulator.anyTurn sim₀ turns sim) :
    (routerContract config type).HostedBy config sim := by
  have hkept := Config.routerContract_keptBy hconfig hdata type
  obtain ⟨sim₁, hstarted, hhosted⟩ := Contract.HostedBy.started hconfig hkept queue chances
  obtain rfl := Option.some.inj (hstart.symm.trans hstarted)
  exact hhosted.run hconfig hkept hrun

/-- Whatever packets are lost and however the queue breaks ties, the simulation of a well-formed
configuration starts and never gets stuck before it ends, and the router at every node is in a state that
its events alone can lead to, with ports wired as the links are. -/
theorem simulator_hosts_routers (hconfig : config.WellFormed) (hdata : config.SendsData) (queue : EventQueue)
    (type : ProtocolType) (chances : Nat → Chance) :
    ∃ sim₀, Simulator.started queue config (routingProtocolImpl type) chances = some sim₀ ∧
      ∀ turns sim, Simulator.Runs (routingProtocolImpl type) Simulator.anyTurn sim₀ turns sim →
        (sim.ended = false → ∀ chance, (sim.turn (routingProtocolImpl type) chance).isSome) ∧
        ∀ node id, config.nodes[node]? = some id → ∃ r,
          sim.nodes[node]? = some ⟨id, config.linkVector node, r⟩ ∧
            Attached (config.attached node) (config.numPorts node) id ∧
            ModeReachable type (config.attached node) (config.numPorts node) id r := by
  have hkept := Config.routerContract_keptBy hconfig hdata type
  obtain ⟨sim₀, hstart, -⟩ := Contract.HostedBy.started hconfig hkept queue chances
  refine ⟨sim₀, hstart, fun turns sim hrun => ?_⟩
  have hhosted := hostedBy_of_runs hconfig hdata hstart hrun
  refine ⟨fun hrunning chance => ?_, fun node id hid => ?_⟩
  · obtain ⟨t, sim', hturn, -⟩ := hhosted.turn hconfig hkept hrunning chance
    rw [hturn]
    rfl
  · obtain ⟨r, hnode, id', hid', hhosts⟩ := hhosted.node node id hid
    obtain rfl := Option.some.inj (hid.symm.trans hid')
    exact ⟨r, hnode, hconfig.attached_wired hid, hhosts.reachable⟩

/-- In every run, what a router has on record for a neighbour is the link at a port that leads to it, at two
of the delays that the configuration names for this link, cut down to 16 bits; so twice the delay where it
names only one. -/
theorem link_cost_round_trip (hconfig : config.WellFormed) (hdata : config.SendsData)
    (hstart : Simulator.started queue config (routingProtocolImpl type) chances = some sim₀)
    (hrun : Simulator.Runs (routingProtocolImpl type) Simulator.anyTurn sim₀ turns sim) {this : Node Router}
    (hnode : sim.nodes[node]? = some this) {n : UInt16} {link : Comp556.Link}
    (hlink : this.rp.neighborTable.get? n = some link) :
    ∃ ln there back, (config.linkVector node)[link.port.toNat]? = some ln ∧ config.attached node link.port = n ∧
      config.HasDelay ln there ∧ config.HasDelay ln back ∧ link.cost = (there + back).toUInt16 ∧
      ∀ delay, (∀ d, config.HasDelay ln d → d = delay) → link.cost.toNat = 2 * delay.toNat % 65536 := by
  have hhosted := hostedBy_of_runs hconfig hdata hstart hrun
  have hlt : node < config.nodes.length := hhosted.size ▸ (List.getElem?_eq_some_iff.mp hnode).1
  obtain ⟨id, r, hid, hthis, id', hid', hhosts⟩ := hhosted.exists_node hlt
  obtain rfl := Option.some.inj (hid.symm.trans hid')
  obtain rfl := Option.some.inj (hnode.symm.trans hthis)
  obtain ⟨elapsed, ⟨ln, there, back, hport, hthere, hback, rfl⟩, hcost⟩ := hhosts.timed n link hlink
  have hattached := ((hhosts.ports hconfig hid).1.attached_of_link hlink).2
  refine ⟨ln, there, back, hport, hattached, hthere, hback, hcost, fun delay hsame => ?_⟩
  obtain rfl := hsame there hthere
  obtain rfl := hsame back hback
  rw [hcost, UInt32.toNat_toUInt16, UInt32.toNat_add]
  omega

private theorem sampleConfig_wellFormed {events : List (UInt32 × ConfigEvent)}
    (hnames : ∀ e ∈ events, (sampleConfig 11 events).Names e.2) : (sampleConfig 11 events).WellFormed where
  ids := show [1, 2, 3].Nodup by decide
  few := show 3 ≤ 16381 by decide
  ends := show ∀ link ∈ (sampleConfig 11 []).links, link.node1 < 3 ∧ link.node2 < 3 ∧ link.node1 ≠ link.node2 by
    decide
  simple ln ln' link link' a b hlink hlink' hjoins hjoins' := by
    have hlt : ln < 2 := (List.getElem?_eq_some_iff.mp hlink).1
    have hlt' : ln' < 2 := (List.getElem?_eq_some_iff.mp hlink').1
    by_contra hne
    obtain ⟨rfl, rfl⟩ | ⟨rfl, rfl⟩ : ln = 0 ∧ ln' = 1 ∨ ln = 1 ∧ ln' = 0 := by omega
    · obtain rfl := Option.some.inj hlink
      obtain rfl := Option.some.inj hlink'
      simp only [Link.Joins] at hjoins hjoins'
      omega
    · obtain rfl := Option.some.inj hlink
      obtain rfl := Option.some.inj hlink'
      simp only [Link.Joins] at hjoins hjoins'
      omega
  names := hnames

theorem steadyConfig_wellFormed : (sampleConfig 11 []).WellFormed :=
  sampleConfig_wellFormed fun _ he => absurd he List.not_mem_nil

theorem steadyConfig_sendsData : (sampleConfig 11 []).SendsData :=
  fun _ _ _ hevent => absurd hevent List.not_mem_nil

private theorem changedConfig_wellFormed : (sampleConfig 11 [(21, .changeDelay 0 1)]).WellFormed :=
  sampleConfig_wellFormed fun e he => by
    obtain rfl := List.mem_singleton.mp he
    exact Nat.zero_lt_succ 1

private theorem changedConfig_sendsData : (sampleConfig 11 [(21, .changeDelay 0 1)]).SendsData := by
  intro time src pkt hevent
  cases List.mem_singleton.mp hevent

theorem sampleRun_hosts_routers :
    ∃ (turns : List Turn) (sim : Simulator .newestFirst Router) (r : Router), turns.length = 26 ∧
      sim.nodes[0]? = some ⟨1, [0, 1], r⟩ ∧
        ModeReachable .dv ((sampleConfig 11 [(21, .changeDelay 0 1)]).attached 0) 2 1 r := by
  have hrun : (sampleStart .newestFirst 11 [(21, .changeDelay 0 1)]).any fun sim =>
      (sim.run (routingProtocolImpl .dv) (List.replicate 26 quietChance)).any fun out =>
        decide (out.1.length = 26) := by
    decide +kernel
  obtain ⟨sim₀, turns, sim, hstart, hruns, hholds⟩ :=
    exists_sampleRun hrun fun sim _ _ => Simulator.admitsAll_anyTurn _ sim _
  obtain ⟨sim₁, hstart', hall⟩ :=
    simulator_hosts_routers changedConfig_wellFormed changedConfig_sendsData .newestFirst .dv
    fun _ => quietChance
  obtain rfl := Option.some.inj (hstart.symm.trans hstart')
  obtain ⟨r, hnode, -, hreach⟩ := (hall turns sim hruns).2 0 1 rfl
  exact ⟨turns, sim, r, of_decide_eq_true hholds, hnode, hreach⟩

theorem sampleRun_link_cost :
    ∃ (sim : Simulator .oldestFirst Router) (this : Node Router) (link : Comp556.Link),
      sim.nodes[0]? = some this ∧ this.rp.neighborTable.get? 3 = some link ∧
      link.cost.toNat = 2 * 11 % 65536 := by
  have hrun : (sampleStart .oldestFirst 11 [(21, .changeDelay 0 1)]).any fun sim =>
      (sim.run (routingProtocolImpl .dv) (List.replicate 26 quietChance)).any fun out =>
        (out.2.nodes[0]?).any fun this => (this.rp.neighborTable.get? 3).any fun link =>
          decide (link.port = 1) := by
    decide +kernel
  obtain ⟨sim₀, turns, sim, hstart, hruns, hholds⟩ :=
    exists_sampleRun hrun fun sim _ _ => Simulator.admitsAll_anyTurn _ sim _
  obtain ⟨this, hnode, hany⟩ := (Option.any_eq_true _ _).mp hholds
  obtain ⟨link, hlink, hone⟩ := (Option.any_eq_true _ _).mp hany
  obtain ⟨ln, there, back, hport, -, -, -, -, hcost⟩ :=
    link_cost_round_trip changedConfig_wellFormed changedConfig_sendsData hstart hruns hnode hlink
  rw [of_decide_eq_true hone] at hport
  obtain rfl := Option.some.inj hport
  refine ⟨sim, this, link, hnode, hlink, hcost 11 fun d hd => ?_⟩
  rcases hd with ⟨link, hlink, rfl⟩ | ⟨time, hevent⟩
  · exact congrArg Link.delay (Option.some.inj hlink).symm
  · cases List.mem_singleton.mp hevent

end Comp556.Sim
