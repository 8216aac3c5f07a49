import Comp556.Foundation.Vectors
import Comp556.Routing.DvTriggered
import Comp556.Routing.LsFlooding

/-!
# A network of distance-vector routers

Routers with fixed links that bring their links up by pongs and tell each other their tables. The
packets on a link stay in order, and may be lost. Towards each destination the network is a system of
distance vectors.
-/

namespace Comp556.Dv

open Router

/-- Fixed links with a cost for each, and another router behind every port. -/
structure Topology extends Ls.Topology where
  cost : UInt16 → UInt16 → UInt16
  symmetric : ∀ a b, cost a b = cost b a
  positive : ∀ a b, 0 < (cost a b).toNat
  wired : ∀ a, Attached (fun p => (farEnd a p).1) (numPorts a) a

namespace Topology

variable (topo : Topology)

def attached (a p : UInt16) : UInt16 := (topo.farEnd a p).1

def weight (a b : UInt16) : Option Nat := (topo.portTo a b).map fun _ => (topo.cost a b).toNat

end Topology

/-- The routers, the DV packets on the way from one router to another, oldest first, and as history
the routers whose table has been advertised to all their neighbours: the DV alarm has gone off since
one of their packets was last lost or a neighbour last took up the link to them. -/
structure DvNet where
  router : UInt16 → Router
  channel : UInt16 → UInt16 → List Packet
  advertised : Finset UInt16

/-- The DV packets among what router `a` sends over its link to `b`. -/
def posted (topo : Topology) (a b : UInt16) (calls : List SysCall) : List Packet :=
  calls.filterMap fun call =>
    match call with
    | .send port packet =>
      if topo.portTo a b = some port ∧ PacketType.ofCode (packet.block.memory 0) = some .dv then some packet
      else none
    | .setAlarm _ _ => none

namespace DvNet

/-- What `init` leaves behind at every router. -/
def start (topo : Topology) : DvNet where
  router a := Router.init (topo.numPorts a) a .dv
  channel _ _ := []
  advertised := ∅

variable (topo : Topology) (net : DvNet)

/-- Router `a` has taken up its link to `b`. -/
def up (a b : UInt16) : Bool := (net.router a).neighborTable.contains b

/-- Router `a` has handled an event, and its DV packets are on their way. -/
def after (a : UInt16) (out : Router × List SysCall) : DvNet :=
  { net with
    router := Function.update net.router a out.1
    channel := fun v u => net.channel v u ++ if v = a then posted topo v u out.2 else [] }

/-- The oldest packet from `v` to `u` is taken from the link. -/
def take (v u : UInt16) : DvNet :=
  { net with channel := fun a b => if a = v ∧ b = u then (net.channel a b).tail else net.channel a b }

/-- The packets from `v` to `u` that are left when some are lost. -/
def lose (v u : UInt16) (left : List Packet) : DvNet where
  router := net.router
  channel a b := if a = v ∧ b = u then left else net.channel a b
  advertised := net.advertised.erase v

end DvNet

/-- The pong of `v` for `u`, after a round trip as long as the link costs. -/
structure PongOver (topo : Topology) (env : Env) (u v : UInt16) (packet : Packet) : Prop where
  type : PacketType.ofCode (packet.block.memory 0) = some .pong
  source : ntohs (packet.block.memory.load16 4) = v
  dest : ntohs (packet.block.memory.load16 6) = u
  cost : roundTripTime env packet.block.memory = topo.cost u v

/-- The port alarm finds nothing past its deadline. A route over its own link is renewed anyway. -/
structure NothingDue (env : Env) (r : Router) : Prop where
  links : ∀ n link, r.neighborTable.get? n = some link → env.time < link.timeout
  routes : ∀ d route time, r.routingTable.get? d = some route → r.dvTime.get? d = some time →
    route.nextHop ≠ d → env.time < time
  renewal : env.time < renewed env

/-- Events that concern neither the links nor the routes. -/
def Routine (env : Env) (r : Router) : Event → Prop
  | .packet _ packet =>
    match PacketType.ofCode (packet.block.memory 0) with
    | some .pong | some .dv | some .ls => False
    | _ => True
  | .alarm .ls => False
  | .alarm .port => NothingDue env r
  | .alarm _ => True

/-- The DV alarm advertises the table of the router to all its neighbours. -/
def advertisedAfter (u : UInt16) (advertised : Finset UInt16) : Event → Finset UInt16
  | .alarm .dv => insert u advertised
  | _ => advertised

def Delivers (topo : Topology) (net net' : DvNet) : Prop :=
  ∃ env v u port packet rest out, topo.portTo u v = some port ∧ net.channel v u = packet :: rest ∧
    handle env (net.router u) (.packet port packet) = some out ∧ net' = (net.take v u).after topo u out

/-- Anything may happen that neither changes the cost of a link nor takes it down, and that no route
is waiting too long for. -/
inductive DvStep (topo : Topology) (net : DvNet) : DvNet → Prop
  | deliver {net' : DvNet} (h : Delivers topo net net') : DvStep topo net net'
  | pong (env : Env) {u v port : UInt16} {packet : Packet} {out : Router × List SysCall}
      (hport : topo.portTo u v = some port) (hpong : PongOver topo env u v packet)
      (hrun : handle env (net.router u) (.packet port packet) = some out) :
      DvStep topo net { net.after topo u out with
        -- what `v` said before `u` took up the link may have been dropped
        advertised := if net.up u v then net.advertised else net.advertised.erase v }
  | routine (env : Env) {u : UInt16} {event : Event} {out : Router × List SysCall}
      (hevent : Routine env (net.router u) event) (hrun : handle env (net.router u) event = some out) :
      DvStep topo net { net.after topo u out with advertised := advertisedAfter u net.advertised event }
  | lose {v u : UInt16} {left : List Packet} (hleft : left.Sublist (net.channel v u)) :
      DvStep topo net (net.lose v u left)

def DvNet.Reachable (topo : Topology) (net : DvNet) : Prop :=
  Relation.ReflTransGen (DvStep topo) (.start topo) net

/-- Costs and tables that 16 bits have room for: even a route through every router stays below the
infinite cost. -/
structure Small (topo : Topology) (members : Finset UInt16) (limit : Nat) : Prop where
  linked : ∀ a b, (topo.portTo a b).isSome → a ∈ members
  cheap : ∀ a b, (topo.portTo a b).isSome → (topo.cost a b).toNat ≤ limit
  room : limit * members.card < 65535
  few : members.card ≤ 16382

/-- The environment does not matter to what a packet lists. -/
def anyEnv : Env := ⟨0, fun _ => 0, .front UInt16⟩

/-- The finite cost at which a packet lists a destination. -/
def listed (t : UInt16) (packet : Packet) : Option Nat :=
  ((readTable anyEnv packet.block.memory packet.size).get? t).bind fun a =>
    if a = infinityCost then none else some a.toNat

def recordOf (route : Route) : Record UInt16 := ⟨route.cost.toNat, route.nextHop⟩

def DvNet.view (t : UInt16) (net : DvNet) : Vectors UInt16 where
  record u := ((net.router u).routingTable.get? t).map recordOf
  channel v u := (net.channel v u).map (listed t)

/-- A packet that `v` has built for `u` from a table in which `u` is routed. -/
def Written (v u : UInt16) (packet : Packet) : Prop :=
  ∃ env s back, packet = dvPacket env s u ∧ s.routerId = v ∧ s.routingTable.size ≤ 16381 ∧
    s.routingTable.get? v = none ∧ s.routingTable.get? u = some back ∧ back.cost ≠ infinityCost

end Comp556.Dv
