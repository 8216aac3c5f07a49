import Comp556.Simulator.Dispatch

/-!
# Runs of the simulator

`Simulator::run` takes the top of the queue, dispatches it, and only then pops. The handlers push
events in between, so the loop relies on the dispatched event still being on top.
-/

namespace Comp556.Sim

variable {queue : EventQueue} {R : Type}

def routingProtocolImpl (type : ProtocolType) : RoutingProtocol Router where
  init env numPorts routerId :=
    (Router.init numPorts routerId type, Router.initCalls env (Router.init numPorts routerId type))
  recv := Router.recv
  handleAlarm := Router.handleAlarm

/-- The events a configuration file can hold. -/
inductive ConfigEvent where
  | changeDelay (link : Nat) (delay : UInt32)
  | linkDie (dyingLink : Nat)
  | linkComeUp (upcomingLink : Nat)
  | xmitPktEndToEnd (src : Nat) (pkt : Packet)

def ConfigEvent.body : ConfigEvent → EventBody
  | .changeDelay link delay => .changeDelay link delay
  | .linkDie dyingLink => .linkDie dyingLink
  | .linkComeUp upcomingLink => .linkComeUp upcomingLink
  | .xmitPktEndToEnd src pkt => .xmitPktEndToEnd src pkt

/-- What the configuration file says: the ids of the nodes, in the order in which `node_table`
lists them, the links, and the events with their times. -/
structure Config where
  nodes : List UInt16
  links : List Link
  events : List (UInt32 × ConfigEvent)
  stopTime : UInt32

def Config.linkVector (config : Config) (node : Nat) : List Nat :=
  config.links.zipIdx.flatMap fun (link, ln) =>
    (if link.node1 = node then [ln] else []) ++ if link.node2 = node then [ln] else []

/-- What `init` of the routing protocol of a node returns, at time 0. -/
def Config.initOf (config : Config) (protocol : RoutingProtocol R) (chance : Nat → Chance) (node : Nat)
    (id : UInt16) : R × List SysCall :=
  protocol.init ⟨0, (chance node).fresh, (chance node).layout⟩
    (UInt16.ofNat (config.linkVector node).length) id

namespace Simulator

/-- The nodes and links of a configuration, at time 0 and without events. The nodes have the routing
protocols that `init_routing_protocol` installs. -/
def blank (queue : EventQueue) (config : Config) (protocol : RoutingProtocol R)
    (chance : Nat → Chance) : Simulator queue R where
  eventQ := queue.empty
  globalTime := 0
  stopTime := config.stopTime
  nodes := config.nodes.mapIdx fun node id =>
    ⟨id, config.linkVector node, (config.initOf protocol chance node id).1⟩
  links := config.links
  created := 0
  overflowed := false

/-- The events of the configuration file are pushed, as at the end of `Simulator::init`. -/
def pushEvents (sim : Simulator queue R) (events : List (UInt32 × ConfigEvent)) : Simulator queue R :=
  events.foldl (fun sim e => sim.push e.1 e.2.body) sim

/-- `Simulator::init_routing_protocol`: the calls of the `init` of every node. -/
def initRoutingProtocol (sim : Simulator queue R) (config : Config) (protocol : RoutingProtocol R)
    (chance : Nat → Chance) : Option (Simulator queue R) :=
  config.nodes.zipIdx.foldlM (fun sim (id, node) =>
    sim.calls node (config.initOf protocol chance node id).2) sim

/-- The simulator as `run` finds it. -/
def started (queue : EventQueue) (config : Config) (protocol : RoutingProtocol R)
    (chance : Nat → Chance) : Option (Simulator queue R) :=
  ((blank queue config protocol chance).pushEvents config.events).initRoutingProtocol config protocol
    chance

end Simulator

/-- One turn of the loop of `run`: the time it sets, the event it dispatches, and the event it pops
afterwards. -/
structure Turn where
  time : UInt32
  dispatched : Event
  popped : Event

namespace Simulator

/-- The condition under which the loop of `run` ends. -/
def ended (sim : Simulator queue R) : Bool :=
  (queue.top sim.eventQ).isNone || (sim.stopTime ≠ 0 && sim.globalTime > sim.stopTime)

def at_ (sim : Simulator queue R) (time : UInt32) : Simulator queue R := { sim with globalTime := time }

/-- The top of `event_q` is popped. -/
def pop (sim : Simulator queue R) : Simulator queue R := { sim with eventQ := queue.pop sim.eventQ }

/-- The body of the loop of `run`. -/
def turn (protocol : RoutingProtocol R) (sim : Simulator queue R) (chance : Chance) :
    Option (Turn × Simulator queue R) := do
  let currEvent ← queue.top sim.eventQ
  let sim ← (sim.at_ currEvent.time).dispatch protocol chance currEvent
  let popped ← queue.top sim.eventQ
  return (⟨sim.globalTime, currEvent, popped⟩, sim.pop)

/-- The turns of the loop of `run` up to some point, and the simulator there. Each turn is admitted
by a condition on the simulator before it and on what the turn meets outside. -/
inductive Runs (protocol : RoutingProtocol R) (admits : Simulator queue R → Chance → Prop)
    (sim₀ : Simulator queue R) : List Turn → Simulator queue R → Prop
  | start : Runs protocol admits sim₀ [] sim₀
  | turn {turns : List Turn} {sim sim' : Simulator queue R} {chance : Chance} {t : Turn}
      (before : Runs protocol admits sim₀ turns sim) (running : sim.ended = false)
      (admitted : admits sim chance) (next : sim.turn protocol chance = some (t, sim')) :
      Runs protocol admits sim₀ (turns ++ [t]) sim'

def anyTurn : Simulator queue R → Chance → Prop := fun _ _ => True

/-- The loop of `run`, for as many turns as there are chances. -/
def run (protocol : RoutingProtocol R) (sim : Simulator queue R) :
    List Chance → Option (List Turn × Simulator queue R)
  | [] => some ([], sim)
  | chance :: chances =>
    if sim.ended then some ([], sim)
    else do
      let (t, sim) ← sim.turn protocol chance
      let (turns, sim) ← sim.run protocol chances
      return (t :: turns, sim)

variable {protocol : RoutingProtocol R} {admits : Simulator queue R → Chance → Prop}
  {sim₀ sim sim' : Simulator queue R} {turns : List Turn} {chance : Chance} {t : Turn}

theorem turn_effect (h : sim.turn protocol chance = some (t, sim')) :
    queue.top sim.eventQ = some t.dispatched ∧ ∃ news mid, Grown (sim.at_ t.dispatched.time) news mid ∧
      (∀ n ∈ news, n.IsRecv → sim.transmitted chance t.dispatched = some n) ∧
      t.time = t.dispatched.time ∧ queue.top mid.eventQ = some t.popped ∧ sim' = mid.pop := by
  simp only [turn, Option.bind_eq_bind, Option.bind_eq_some_iff, pure, Option.some.injEq,
    Prod.mk.injEq] at h
  obtain ⟨currEvent, htop, mid, hdispatch, popped, hpopped, rfl, rfl⟩ := h
  obtain ⟨news, hgrown, hnews⟩ := dispatch_grown rfl hdispatch
  exact ⟨htop, news, mid, hgrown, hnews, hgrown.globalTime, hpopped, rfl⟩

/-- Every turn that `run` takes with the given chances is admitted. -/
def AdmitsAll (protocol : RoutingProtocol R) (admits : Simulator queue R → Chance → Prop) :
    Simulator queue R → List Chance → Prop
  | _, [] => True
  | sim, chance :: chances => sim.ended = false →
    admits sim chance ∧ ∀ out ∈ sim.turn protocol chance, AdmitsAll protocol admits out.2 chances

theorem admitsAll_anyTurn (protocol : RoutingProtocol R) (sim : Simulator queue R)
    (chances : List Chance) : AdmitsAll protocol anyTurn sim chances := by
  induction chances generalizing sim with
  | nil => trivial
  | cons chance chances ih => exact fun _ => ⟨trivial, fun out _ => ih _⟩

instance decidableAdmitsAll [∀ sim chance, Decidable (admits sim chance)] (sim : Simulator queue R)
    (chances : List Chance) : Decidable (AdmitsAll protocol admits sim chances) :=
  match chances with
  | [] => inferInstanceAs (Decidable True)
  | chance :: chances =>
    have (out : Turn × Simulator queue R) : Decidable (AdmitsAll protocol admits out.2 chances) :=
      decidableAdmitsAll _ chances
    inferInstanceAs (Decidable (sim.ended = false → admits sim chance ∧
      ∀ out ∈ sim.turn protocol chance, AdmitsAll protocol admits out.2 chances))

private theorem Runs.append_run {chances : List Chance} {more : List Turn}
    (hbefore : Runs protocol admits sim₀ turns sim) (hadmits : AdmitsAll protocol admits sim chances)
    (h : sim.run protocol chances = some (more, sim')) :
    Runs protocol admits sim₀ (turns ++ more) sim' := by
  induction chances generalizing sim turns more with
  | nil =>
    obtain ⟨rfl, rfl⟩ := Prod.mk.inj (Option.some.inj h)
    rwa [List.append_nil]
  | cons chance chances ih =>
    rw [run] at h
    split at h
    case isTrue =>
      obtain ⟨rfl, rfl⟩ := Prod.mk.inj (Option.some.inj h)
      rwa [List.append_nil]
    case isFalse hended =>
      simp only [Option.bind_eq_bind, Option.bind_eq_some_iff, pure, Option.some.injEq, Prod.mk.injEq] at h
      obtain ⟨⟨t, mid⟩, hturn, ⟨rest, last⟩, hrest, rfl, rfl⟩ := h
      have hrunning := Bool.eq_false_iff.mpr hended
      obtain ⟨hfirst, hall⟩ := hadmits hrunning
      rw [List.append_cons]
      exact ih (hbefore.turn hrunning hfirst hturn) (hall _ hturn) hrest

/-- What `run` computes from the start is a run. -/
private theorem runs_of_run {chances : List Chance} (hadmits : AdmitsAll protocol admits sim chances)
    (h : sim.run protocol chances = some (turns, sim')) : Runs protocol admits sim turns sim' :=
  Runs.append_run .start hadmits h

end Simulator

def quietChance : Chance := ⟨0, sampleMemory [], .front UInt16⟩

/-- Router 1 has links to routers 2 and 3, one of 10 ms and one of a delay to choose. -/
def sampleConfig (delay : UInt32) (events : List (UInt32 × ConfigEvent)) : Config where
  nodes := [1, 2, 3]
  links := [⟨true, 10, 0, 0, 1⟩, ⟨true, delay, 0, 0, 2⟩]
  events := events
  stopTime := 0

def sampleStart (queue : EventQueue) (delay : UInt32) (events : List (UInt32 × ConfigEvent)) :
    Option (Simulator queue Router) :=
  Simulator.started queue (sampleConfig delay events) (routingProtocolImpl .dv) fun _ => quietChance

theorem exists_sampleRun {admits : Simulator queue Router → Chance → Prop} {delay : UInt32}
    {events : List (UInt32 × ConfigEvent)} {count : Nat}
    {holds : Simulator queue Router → List Turn × Simulator queue Router → Bool}
    (h : (sampleStart queue delay events).any fun sim =>
      (sim.run (routingProtocolImpl .dv) (List.replicate count quietChance)).any (holds sim))
    (hadmits : ∀ sim out, holds sim out → Simulator.AdmitsAll (routingProtocolImpl .dv) admits sim
      (List.replicate count quietChance)) :
    ∃ sim₀ turns sim, sampleStart queue delay events = some sim₀ ∧
      Simulator.Runs (routingProtocolImpl .dv) admits sim₀ turns sim ∧ holds sim₀ (turns, sim) := by
  obtain ⟨sim₀, hstart, hany⟩ := (Option.any_eq_true _ _).mp h
  obtain ⟨⟨turns, sim⟩, hrun, hholds⟩ := (Option.any_eq_true _ _).mp hany
  exact ⟨sim₀, turns, sim, hstart, Simulator.runs_of_run (hadmits sim₀ _ hholds) hrun, hholds⟩

end Comp556.Sim
