import Comp556.Routing.Events
import Comp556.Simulator.Hosting

/-!
# What a turn changes

A turn either lets one node handle an event of its router, with a new event for each call, or takes a
packet over a link, or changes a link.
-/

namespace Comp556.Sim

variable {queue : EventQueue} {R : Type} {config : Config} {contract : Contract R}
    {protocol : RoutingProtocol R}
variable {sim sim' : Simulator queue R} {news : List Event} {chance : Chance} {node : Nat}
    {calls : List SysCall}
variable {turns : List Turn} {t : Turn}

/-- What a routing protocol does with an event. -/
def RoutingProtocol.handle (protocol : RoutingProtocol R) (env : Env) (rp : R) :
    Comp556.Event → Option (R × List SysCall)
  | .packet port pkt => protocol.recv env port pkt rp
  | .alarm alarm => protocol.handleAlarm env rp alarm

/-- The node that handles the event, and what its router is told. -/
def Event.brings (chance : Chance) (e : Event) : Option (Nat × Comp556.Event) :=
  match e.body with
  | .xmitPktEndToEnd src pkt => some (src, .packet specialPort (Simulator.copyPacket chance pkt))
  | .recvPkt dest dport pkt _ => some (dest, .packet dport (Simulator.copyPacket chance pkt))
  | .alarm rp data => some (rp, .alarm data)
  | _ => none

/-- The link that the event is about, and what becomes of it. -/
def Event.onLink (e : Event) : Option (Nat × (Link → Link)) :=
  match e.body with
  | .changeDelay link delay => some (link, fun l => { l with delay := delay })
  | .linkDie dyingLink => some (dyingLink, fun l => { l with isAlive := false })
  | .linkComeUp upcomingLink => some (upcomingLink, fun l => { l with isAlive := true })
  | _ => none

/-- The event that a call of a node pushes. -/
def Config.Performs (config : Config) (node : Nat) (now : UInt32) (call : SysCall) (e : Event) : Prop :=
  match call with
  | .send port pkt => e.time = now ∧ ∃ ln b q, config.Carries ln node port b q ∧
  e.body = .xmitPktOnLink b q ln pkt
  | .setAlarm duration alarm => e.time = now + duration ∧ e.body = .alarm node alarm

/-- The calls that `init_routing_protocol` makes, with the nodes that make them. -/
def Config.initCalls (config : Config) (protocol : RoutingProtocol R) (chances : Nat → Chance) :
    List (Nat × SysCall) :=
  config.nodes.zipIdx.flatMap fun (id, node) => (config.initOf protocol chances node id).2.map fun c =>
    (node, c)

namespace Simulator

/-- What the dispatch of an event does to nodes, links and queue. -/
inductive Dispatched (config : Config) (protocol : RoutingProtocol R) (sim : Simulator queue R)
    (chance : Chance) (e : Event) (news : List Event) (sim' : Simulator queue R) : Prop
  | handled {node : Nat} {id : UInt16} {event : Comp556.Event} {rp : R} {out : R × List SysCall}
      (hbrings : e.brings chance = some (node, event)) (hid : config.nodes[node]? = some id)
      (hthis : sim.nodes[node]? = some ⟨id, config.linkVector node, rp⟩)
      (hhandle : protocol.handle (sim.env chance) rp event = some out)
      (hcalls : List.Forall₂ (config.Performs node sim.globalTime) out.2 news)
      (hnodes : sim'.nodes = (sim.setRp node out.1).nodes) (hlinks : sim'.links = sim.links) :
      Dispatched config protocol sim chance e news sim'
  | carried {dest : Nat} {dport : UInt16} {ln : Nat} {pkt : Packet} {link : Link}
      (hbody : e.body = .xmitPktOnLink dest dport ln pkt) (hlink : sim.links[ln]? = some link)
      (hpass : passes chance link)
      (hnews : news = [⟨sim.created, e.time + link.delay, .recvPkt dest dport pkt ⟨e.address, ln⟩⟩])
      (hnodes : sim'.nodes = sim.nodes) (hlinks : sim'.links = sim.links) :
      Dispatched config protocol sim chance e news sim'
  | lost {dest : Nat} {dport : UInt16} {ln : Nat} {pkt : Packet} {link : Link}
      (hbody : e.body = .xmitPktOnLink dest dport ln pkt) (hlink : sim.links[ln]? = some link)
      (hpass : passes chance link = false) (hnews : news = []) (hnodes : sim'.nodes = sim.nodes)
      (hlinks : sim'.links = sim.links) :
      Dispatched config protocol sim chance e news sim'
  | relinked {ln : Nat} {f : Link → Link} {link : Link} (honLink : e.onLink = some (ln, f))
      (hlink : sim.links[ln]? = some link) (hnews : news = []) (hnodes : sim'.nodes = sim.nodes)
      (hlinks : sim'.links = sim.links.set ln (f link)) :
      Dispatched config protocol sim chance e news sim'

/-- A turn that takes event `e` out of the queue, leaves `rest` there and adds `news`. -/
structure Turned (config : Config) (protocol : RoutingProtocol R) (sim : Simulator queue R) (chance : Chance)
    (e : Event) (rest : Multiset Event) (news : List Event) (sim' : Simulator queue R) : Prop where
  before : queue.elements sim.eventQ = e ::ₘ rest
  after : queue.elements sim'.eventQ = rest + news
  first : ∀ f ∈ rest, e.time ≤ f.time
  addresses : news.map Event.address = List.range' sim.created news.length
  created : sim'.created = sim.created + news.length
  due : ∀ n ∈ news, e.time ≤ n.time
  globalTime : sim'.globalTime = e.time
  dispatched : Dispatched config protocol (sim.at_ e.time) chance e news sim'

end Simulator

open Simulator

namespace Contract.HostedBy

private theorem calls_performed (hconfig : config.WellFormed) (h : contract.HostedBy config sim)
    (hnode : node < config.nodes.length) (hallows : contract.Allows config node sim.globalTime calls)
    (hcalls : sim.calls node calls = some sim') :
    ∃ news, Grown sim news sim' ∧ List.Forall₂ (config.Performs node sim.globalTime) calls news ∧
      sim'.nodes = sim.nodes ∧ sim'.links = sim.links := by
  induction calls generalizing sim with
  | nil =>
    obtain rfl := Option.some.inj hcalls
    exact ⟨[], .refl sim, .nil, rfl, rfl⟩
  | cons c calls ih =>
    have hfirst : contract.Allows config node sim.globalTime [c] :=
      ⟨fun port pkt hc => hallows.send port pkt (List.mem_cons.mpr (.inl (List.mem_singleton.mp hc))),
        fun duration alarm hc => hallows.setAlarm duration alarm
          (List.mem_cons.mpr (.inl (List.mem_singleton.mp hc)))⟩
    rw [Simulator.calls, List.foldlM_cons, Option.bind_eq_bind, Option.bind_eq_some_iff] at hcalls
    obtain ⟨mid, hcall, hrest⟩ := hcalls
    obtain ⟨mid', hcall', hmid, htime⟩ := h.call hconfig hnode hfirst
    obtain rfl := Option.some.inj (hcall.symm.trans hcall')
    have hallowsRest : contract.Allows config node mid.globalTime calls :=
      ⟨fun port pkt hc => htime ▸ hallows.send port pkt (List.mem_cons_of_mem _ hc),
        fun duration alarm hc => hallows.setAlarm duration alarm (List.mem_cons_of_mem _ hc)⟩
    obtain ⟨more, hgrown, hperforms, hnodes, hlinks⟩ := ih hmid hallowsRest hrest
    rw [htime] at hperforms
    have hone : ∃ e, Grown sim [e] mid ∧ config.Performs node sim.globalTime c e ∧ mid.nodes = sim.nodes ∧
        mid.links = sim.links := by
      cases c with
      | setAlarm duration alarm =>
        obtain rfl := Option.some.inj hcall
        exact ⟨_, sim.grown_pushAfter duration _, ⟨rfl, rfl⟩, rfl, rfl⟩
      | send port pkt =>
        obtain ⟨hport, -⟩ := hallows.send port pkt List.mem_cons_self
        obtain ⟨ln, b, q, hcarries, hsend⟩ := h.send_eq hconfig pkt hnode hport
        obtain rfl := Option.some.inj (hsend.symm.trans hcall)
        exact ⟨_, sim.grown_push (UInt32.le_refl _) _, ⟨rfl, ln, b, q, hcarries, rfl⟩, rfl, rfl⟩
    obtain ⟨e, hgrown₁, hperforms₁, hnodes₁, hlinks₁⟩ := hone
    exact ⟨e :: more, hgrown₁.trans hgrown, .cons hperforms₁ hperforms, hnodes.trans hnodes₁,
      hlinks.trans hlinks₁⟩

variable (hconfig : config.WellFormed) (hkept : contract.KeptBy config protocol)
include hconfig hkept

omit hkept in
theorem handled (h : contract.HostedBy config sim) {e : Event} {event : Comp556.Event}
    (hbrings : e.brings chance = some (node, event)) (hnode : node < config.nodes.length)
    (hallows : ∀ rp out, contract.good node rp → protocol.handle (sim.env chance) rp event = some out →
      contract.good node out.1 ∧ contract.Allows config node sim.globalTime out.2)
    (hdispatch : ((sim.nodes[node]?).bind fun this => (protocol.handle (sim.env chance) this.rp event).bind
      (sim.afterHandler node)) = some sim') :
    ∃ news, Grown sim news sim' ∧ Dispatched config protocol sim chance e news sim' := by
  obtain ⟨id, rp, hid, hthis, hgood⟩ := h.exists_node hnode
  rw [hthis, Option.bind_some] at hdispatch
  obtain ⟨out, hhandle, hafter⟩ := Option.bind_eq_some_iff.mp hdispatch
  obtain ⟨hgood', hallowed⟩ := hallows rp out hgood hhandle
  obtain ⟨news, hgrown, hperforms, hnodes, hlinks⟩ :=
    (h.setRp hgood').calls_performed hconfig hnode hallowed hafter
  have hset : Grown sim [] (sim.setRp node out.1) := .none rfl rfl rfl rfl
  exact ⟨news, hset.trans hgrown, .handled hbrings hid hthis hhandle hperforms hnodes hlinks⟩

theorem dispatched (h : contract.HostedBy config sim) {e : Event} (hnow : sim.globalTime = e.time)
    (hfits : contract.Fits config e.time e.body) (hdispatch : sim.dispatch protocol chance e = some sim') :
    ∃ news, Grown sim news sim' ∧ Dispatched config protocol sim chance e news sim' := by
  have hrecv {node : Nat} {port : UInt16} {pkt : Packet} (hnode : node < config.nodes.length)
      (hexpects : contract.expects node port sim.globalTime pkt) (rp : R) (out : R × List SysCall)
      (hgood : contract.good node rp)
      (hhandle : protocol.handle (sim.env chance) rp (.packet port pkt) = some out) :
      contract.good node out.1 ∧ contract.Allows config node sim.globalTime out.2 := by
    obtain ⟨out', hrun, hkeeps⟩ := hkept.recv (sim.env chance) node port pkt rp hnode hgood hexpects
    obtain rfl := Option.some.inj (hrun.symm.trans hhandle)
    exact hkeeps
  have hrelinked {ln : Nat} {f : Link → Link} (honLink : e.onLink = some (ln, f))
      (hmodify : sim.modifyLink ln f = some sim') :
      ∃ news, Grown sim news sim' ∧ Dispatched config protocol sim chance e news sim' := by
    obtain ⟨link, hlink, rfl⟩ := Option.map_eq_some_iff.mp hmodify
    exact ⟨[], .none rfl rfl rfl rfl, .relinked honLink hlink rfl rfl rfl⟩
  obtain ⟨address, time, body⟩ := e
  subst hnow
  cases body with
  | changeDelay link delay => exact hrelinked rfl hdispatch
  | linkDie dyingLink => exact hrelinked rfl hdispatch
  | linkComeUp upcomingLink => exact hrelinked rfl hdispatch
  | xmitPktEndToEnd src pkt => exact h.handled hconfig rfl hfits.1 (hrecv hfits.1 (hfits.2 chance _)) hdispatch
  | recvPkt dest dport pkt origin =>
    exact h.handled hconfig rfl hfits.1 (hrecv hfits.1 (hfits.2 chance)) hdispatch
  | alarm rp data =>
    refine h.handled hconfig rfl hfits.1 (fun r out hgood hhandle => ?_) hdispatch
    obtain ⟨out', hrun, hkeeps⟩ := hkept.handleAlarm (sim.env chance) rp data r hfits.1 hgood hfits.2
    obtain rfl := Option.some.inj (hrun.symm.trans hhandle)
    exact hkeeps
  | xmitPktOnLink dest dport ln pkt =>
    obtain ⟨link, hlink, hout⟩ := Option.map_eq_some_iff.mp hdispatch
    split at hout
    case isTrue hpass =>
      obtain rfl := hout
      exact ⟨_, grown_pushAfter sim link.delay _, .carried rfl hlink hpass rfl rfl rfl⟩
    case isFalse hpass =>
      obtain rfl := hout
      exact ⟨[], .refl _, .lost rfl hlink (Bool.eq_false_iff.mpr hpass) rfl rfl rfl⟩

theorem turned (h : contract.HostedBy config sim) (hontime : OnTime turns sim)
    (hturn : sim.turn protocol chance = some (t, sim')) (hfit : sim'.overflowed = false) :
    ∃ rest news, Turned config protocol sim chance t.dispatched rest news sim' := by
  have hpopped := (hontime.turn hturn hfit).popped t (by simp)
  simp only [Simulator.turn, Option.bind_eq_bind, Option.bind_eq_some_iff, pure, Option.some.injEq,
    Prod.mk.injEq] at hturn
  obtain ⟨e, htop, mid, hdispatch, popped, htop', rfl, rfl⟩ := hturn
  obtain rfl : popped = e := hpopped
  have he := queue.mem_of_top htop
  have hat : contract.HostedBy config (sim.at_ popped.time) := ⟨h.size, h.node, h.link, h.events⟩
  obtain ⟨news, hgrown, hdispatched⟩ := hat.dispatched hconfig hkept rfl (h.events popped he) hdispatch
  have hbefore := queue.elements_pop htop
  have hafter : queue.elements mid.pop.eventQ = queue.elements (queue.pop sim.eventQ) + news := by
    have helements := hgrown.elements
    rw [queue.elements_pop htop', show (sim.at_ popped.time).eventQ = sim.eventQ from rfl, hbefore,
      Multiset.cons_add, Multiset.cons_inj_right] at helements
    exact helements
  have hdispatched' : Dispatched config protocol (sim.at_ popped.time) chance popped news mid.pop := by
    cases hdispatched with
    | handled hbrings hid hthis hhandle hcalls hnodes hlinks =>
      exact .handled hbrings hid hthis hhandle hcalls hnodes hlinks
    | carried hbody hlink hpass hnews hnodes hlinks => exact .carried hbody hlink hpass hnews hnodes hlinks
    | lost hbody hlink hpass hnews hnodes hlinks => exact .lost hbody hlink hpass hnews hnodes hlinks
    | relinked honLink hlink hnews hnodes hlinks => exact .relinked honLink hlink hnews hnodes hlinks
  refine ⟨_, news, hbefore, hafter, fun f hf => ?_, hgrown.addresses, hgrown.created, hgrown.due hfit,
    hgrown.globalTime, hdispatched'⟩
  exact UInt32.le_iff_toNat_le.mpr (queue.top_le htop (hbefore ▸ Multiset.mem_cons_of_mem hf))

end Contract.HostedBy

theorem Config.mem_initCalls_iff {chances : Nat → Chance} {c : SysCall} :
    (node, c) ∈ config.initCalls protocol chances ↔
      ∃ id, config.nodes[node]? = some id ∧ c ∈ (config.initOf protocol chances node id).2 := by
  simp only [Config.initCalls, List.mem_flatMap, Prod.exists, List.mem_zipIdx_iff_getElem?, List.mem_map,
    Prod.mk.injEq]
  constructor
  · rintro ⟨id, node', hid, c, hc, rfl, rfl⟩
    exact ⟨id, hid, hc⟩
  · rintro ⟨id, hid, hc⟩
    exact ⟨id, node, hid, c, hc, rfl, rfl⟩

private theorem pushEvents_effect (sim : Simulator queue R) (events : List (UInt32 × ConfigEvent)) :
    ∃ pushed : List Event, pushed.map (fun e => (e.time, e.body)) = events.map (fun e => (e.1, e.2.body)) ∧
      queue.elements (sim.pushEvents events).eventQ = queue.elements sim.eventQ + pushed ∧
      (sim.pushEvents events).nodes = sim.nodes ∧ (sim.pushEvents events).links = sim.links ∧
      (sim.pushEvents events).globalTime = sim.globalTime := by
  induction events generalizing sim with
  | nil => exact ⟨[], rfl, by simp [pushEvents], rfl, rfl, rfl⟩
  | cons e events ih =>
    obtain ⟨pushed, hpushed, helements, hnodes, hlinks, htime⟩ := ih (sim.push e.1 e.2.body)
    refine ⟨⟨sim.created, e.1, e.2.body⟩ :: pushed, by rw [List.map_cons, hpushed, List.map_cons], ?_, hnodes,
      hlinks, htime⟩
    change queue.elements ((sim.push e.1 e.2.body).pushEvents events).eventQ = _
    rw [helements, Simulator.push, queue.elements_push, ← Multiset.cons_coe, Multiset.cons_add,
      Multiset.add_cons]

namespace Contract.HostedBy

/-- The calls of the `init` of one node after the other. -/
private theorem initCalls_performed (hconfig : config.WellFormed) (hkept : contract.KeptBy config protocol)
    {chances : Nat → Chance} {nodes : List (UInt16 × Nat)} (hids : ∀ e ∈ nodes, config.nodes[e.2]? = some e.1)
    (h : contract.HostedBy config sim) (hzero : sim.globalTime = 0)
    (hrun : nodes.foldlM (fun sim e => sim.calls e.2 (config.initOf protocol chances e.2 e.1).2) sim =
      some sim') :
    ∃ news, List.Forall₂ (fun c e => config.Performs c.1 0 c.2 e)
        (nodes.flatMap fun (id, node) => (config.initOf protocol chances node id).2.map fun c => (node, c))
          news ∧
      queue.elements sim'.eventQ = queue.elements sim.eventQ + news ∧ sim'.nodes = sim.nodes ∧
      sim'.links = sim.links ∧ sim'.globalTime = 0 := by
  induction nodes generalizing sim with
  | nil =>
    obtain rfl := Option.some.inj hrun
    exact ⟨[], .nil, by simp, rfl, rfl, hzero⟩
  | cons e nodes ih =>
    obtain ⟨hid, hids⟩ := List.forall_mem_cons.mp hids
    rw [List.foldlM_cons, Option.bind_eq_bind, Option.bind_eq_some_iff] at hrun
    obtain ⟨mid, hcalls, hrest⟩ := hrun
    have hnode := (List.getElem?_eq_some_iff.mp hid).1
    have hallows : contract.Allows config e.2 sim.globalTime (config.initOf protocol chances e.2 e.1).2 := by
      rw [hzero]
      exact (hkept.init ⟨0, (chances e.2).fresh, (chances e.2).layout⟩ e.2 e.1 hid).2
    obtain ⟨mid', hcalls', hmid, htime⟩ := h.calls hconfig hnode hallows
    obtain rfl := Option.some.inj (hcalls.symm.trans hcalls')
    obtain ⟨news, hgrown, hperforms, hnodes, hlinks⟩ := h.calls_performed hconfig hnode hallows hcalls
    obtain ⟨more, hmore, helements, hnodes', hlinks', htime'⟩ := ih hids hmid (htime.trans hzero) hrest
    refine ⟨news ++ more, ?_, ?_, hnodes'.trans hnodes, hlinks'.trans hlinks, htime'⟩
    · rw [List.flatMap_cons]
      refine List.rel_append (List.forall₂_map_left_iff.mpr ?_) hmore
      rwa [hzero] at hperforms
    · rw [helements, hgrown.elements, Multiset.add_assoc, Multiset.coe_add]

/-- The simulator as `run` finds it holds the events of the configuration file, and one for each call that
the `init` of a node makes. -/
theorem started_performed (hconfig : config.WellFormed) (hkept : contract.KeptBy config protocol)
    {chances : Nat → Chance} (hstart : Simulator.started queue config protocol chances = some sim) :
    ∃ pushed news :
      List Event, pushed.map (fun e => (e.time, e.body)) = config.events.map (fun e => (e.1, e.2.body)) ∧
      List.Forall₂ (fun c e => config.Performs c.1 0 c.2 e) (config.initCalls protocol chances) news ∧
      queue.elements sim.eventQ = pushed + news ∧ sim.nodes =
        (Simulator.blank queue config protocol chances).nodes ∧
      sim.links = config.links ∧ sim.globalTime = 0 := by
  obtain ⟨pushed, hpushed, helements, hnodes, hlinks, htime⟩ :=
    pushEvents_effect (Simulator.blank queue config protocol chances) config.events
  obtain ⟨news, hnews, helements', hnodes', hlinks', htime'⟩ := initCalls_performed hconfig hkept
    (fun e he => List.mem_zipIdx_iff_getElem?.mp he)
    ((blank hkept queue chances).pushEvents hconfig hkept) htime hstart
  refine ⟨pushed, news, hpushed, hnews, ?_, hnodes'.trans hnodes, hlinks'.trans hlinks, htime'⟩
  rw [helements', helements, show queue.elements (Simulator.blank queue config protocol chances).eventQ = 0 from
    queue.elements_empty, Multiset.zero_add]

end Contract.HostedBy

end Comp556.Sim
