import Comp556.Foundation.PriorityQueue
import Comp556.Routing.Protocol
import Mathlib.Data.Rat.Defs
import Mathlib.Algebra.Order.Ring.Rat

/-!
# The simulator

Nodes, links and events of the event-driven simulator, and `dispatch` of each kind of event. A
pointer to a node or a link is its position in the list of all of them. An event carries the
address it was allocated at: addresses count the events up in the order they were created.
-/

namespace Comp556.Sim

/-- `loss_prob` is a double; the rational here is the one whose tenfold is the product that
`dispatch` compares with a random digit. -/
structure Link where
  isAlive : Bool
  delay : UInt32
  lossProb : ℚ
  node1 : Nat
  node2 : Nat

/-- A node and the routing protocol it runs. -/
structure Node (R : Type) where
  id : UInt16
  linkVector : List Nat
  rp : R

/-- Where a packet under way comes from: the transmission event it was taken from and the link it
was put on. The code does not keep this. -/
structure Origin where
  sent : Nat
  ln : Nat
  deriving DecidableEq

/-- The subclasses of `Event`. -/
inductive EventBody where
  | changeDelay (link : Nat) (delay : UInt32)
  | linkDie (dyingLink : Nat)
  | linkComeUp (upcomingLink : Nat)
  | xmitPktEndToEnd (src : Nat) (pkt : Packet)
  | xmitPktOnLink (dest : Nat) (dport : UInt16) (ln : Nat) (pkt : Packet)
  | recvPkt (dest : Nat) (dport : UInt16) (pkt : Packet) (origin : Origin)
  | alarm (rp : Nat) (data : Alarm)

structure Event where
  address : Nat
  time : UInt32
  body : EventBody

/-- `event_q`, which orders events by `lteve`. -/
abbrev EventQueue := PriorityQueue Event fun e => e.time.toNat

/-- The virtual functions of `RoutingProtocol`; `init` also returns the calls it makes. -/
structure RoutingProtocol (R : Type) where
  init : Env → UInt16 → UInt16 → R × List SysCall
  recv : Env → UInt16 → Packet → R → Option (R × List SysCall)
  handleAlarm : Env → R → Alarm → Option (R × List SysCall)

/-- What one dispatch meets outside the simulator: `rand`, fresh memory, and the places hash tables
choose for new keys. -/
structure Chance where
  rand : Nat
  fresh : Memory
  layout : Layout UInt16

structure Simulator (queue : EventQueue) (R : Type) where
  eventQ : queue.Queue
  globalTime : UInt32
  stopTime : UInt32
  nodes : List (Node R)
  links : List Link
  /-- The number of events allocated so far. -/
  created : Nat
  /-- Some event time went past the range of an `unsigned int`. -/
  overflowed : Bool

variable {queue : EventQueue} {R : Type}

/-- `Node::get_link_port`. -/
def Node.getLinkPort (node : Node R) (l : Nat) : Option UInt16 :=
  (node.linkVector.idxOf? l).map UInt16.ofNat

namespace Simulator

variable (sim : Simulator queue R)

/-- A new event is pushed into `event_q`. -/
def push (time : UInt32) (body : EventBody) : Simulator queue R :=
  { sim with
    eventQ := queue.push ⟨sim.created, time, body⟩ sim.eventQ
    created := sim.created + 1 }

/-- The same at `base + duration`, a sum of unsigned ints. -/
def pushAfter (base duration : UInt32) (body : EventBody) : Simulator queue R :=
  { sim.push (base + duration) body with
    overflowed := sim.overflowed || decide (2 ^ 32 ≤ base.toNat + duration.toNat) }

/-- `Simulator::set_alarm`. -/
def setAlarm (r : Nat) (duration : UInt32) (d : Alarm) : Simulator queue R :=
  sim.pushAfter sim.globalTime duration (.alarm r d)

/-- `Link::send_generic`. -/
def sendGeneric (ln : Nat) (pkt : Packet) (dport : UInt16) (dest : Nat) : Simulator queue R :=
  sim.push sim.globalTime (.xmitPktOnLink dest dport ln pkt)

/-- `Node::send`. -/
def send (this : Nat) (port : UInt16) (pkt : Packet) : Option (Simulator queue R) := do
  let node ← sim.nodes[this]?
  let ln ← node.linkVector[port.toNat]?
  let link ← sim.links[ln]?
  let node1 ← sim.nodes[link.node1]?
  let rcptNode := if node1.id = node.id then link.node2 else link.node1
  let rcpt ← sim.nodes[rcptNode]?
  let rcptPort ← rcpt.getLinkPort ln
  return sim.sendGeneric ln pkt rcptPort rcptNode

/-- A call of the routing protocol of the node `this`. -/
def call (this : Nat) : SysCall → Option (Simulator queue R)
  | .send port pkt => sim.send this port pkt
  | .setAlarm duration alarm => some (sim.setAlarm this duration alarm)

def calls (this : Nat) (l : List SysCall) : Option (Simulator queue R) :=
  l.foldlM (fun sim c => sim.call this c) sim

def setRp (this : Nat) (rp : R) : Simulator queue R :=
  { sim with nodes := sim.nodes.modify this fun node => { node with rp := rp } }

/-- What a handler running at a node leaves behind. -/
def afterHandler (this : Nat) (out : R × List SysCall) : Option (Simulator queue R) :=
  (sim.setRp this out.1).calls this out.2

def env (chance : Chance) : Env := ⟨sim.globalTime, chance.fresh, chance.layout⟩

/-- The copy that `Node::recv_packet` hands to the routing protocol. -/
def copyPacket (chance : Chance) (pkt : Packet) : Packet :=
  ⟨(Buffer.malloc chance.fresh pkt.size.toNat).store 0 (pkt.block.memory.load 0 pkt.size.toNat), pkt.size⟩

variable (protocol : RoutingProtocol R) (chance : Chance)

/-- `Node::recv_packet`. -/
def recvPacket (this : Nat) (port : UInt16) (pkt : Packet) : Option (Simulator queue R) := do
  let node ← sim.nodes[this]?
  let out ← protocol.recv (sim.env chance) port (copyPacket chance pkt) node.rp
  sim.afterHandler this out

/-- `handle_alarm` of the routing protocol of a node. -/
def alarmFires (r : Nat) (data : Alarm) : Option (Simulator queue R) := do
  let node ← sim.nodes[r]?
  let out ← protocol.handleAlarm (sim.env chance) node.rp data
  sim.afterHandler r out

def modifyLink (l : Nat) (f : Link → Link) : Option (Simulator queue R) :=
  (sim.links[l]?).map fun link => { sim with links := sim.links.set l (f link) }

/-- The test of `Event_Xmit_Pkt_On_Link_Generic::dispatch`: the packet is not lost. -/
def passes (link : Link) : Bool :=
  link.isAlive && decide (10 * link.lossProb ≤ (chance.rand % 10 : Nat))

/-- `Event_Xmit_Pkt_On_Link_Generic::dispatch`. -/
def xmitOnLink (e : Event) (dest : Nat) (dport : UInt16) (ln : Nat) (pkt : Packet) :
    Option (Simulator queue R) :=
  (sim.links[ln]?).map fun link =>
    if passes chance link then sim.pushAfter e.time link.delay (.recvPkt dest dport pkt ⟨e.address, ln⟩)
    else sim

/-- `dispatch`. -/
def dispatch (e : Event) : Option (Simulator queue R) :=
  match e.body with
  | .changeDelay link delay => sim.modifyLink link fun l => { l with delay := delay }
  | .linkDie dyingLink => sim.modifyLink dyingLink fun l => { l with isAlive := false }
  | .linkComeUp upcomingLink => sim.modifyLink upcomingLink fun l => { l with isAlive := true }
  | .xmitPktEndToEnd src pkt => sim.recvPacket protocol chance src specialPort pkt
  | .xmitPktOnLink dest dport ln pkt => sim.xmitOnLink chance e dest dport ln pkt
  | .recvPkt dest dport pkt _ => sim.recvPacket protocol chance dest dport pkt
  | .alarm rp data => sim.alarmFires protocol chance rp data

end Simulator

end Comp556.Sim
