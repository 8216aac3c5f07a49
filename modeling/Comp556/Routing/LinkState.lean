import Comp556.Routing.Router
import Mathlib.Algebra.Ring.Nat
import Mathlib.Data.List.Sort

/-!
# Link-state handlers

The link-state half of `RoutingProtocolImpl`: the graph of known links, the advertisement a
router floods, and Dijkstra's algorithm over a queue that keeps stale entries.
-/

namespace Comp556.Ls

/-- The edge `add_edge` stores, in both directions. -/
def newEdge (env : Env) (weight : UInt16) : Edge := ⟨weight, env.time + dvLsTimeout⟩

/-- `graph[u][v] = edge`. -/
def setEdge (env : Env) (graph : Graph) (u v : UInt16) (edge : Edge) : Graph :=
  graph.modify env.layout u .empty fun edges => edges.insert env.layout v edge

def addEdge (env : Env) (u v weight : UInt16) (graph : Graph) : Graph :=
  setEdge env (setEdge env graph u v (newEdge env weight)) v u (newEdge env weight)

/-- `del_node`. The comparison is with the cost stored in an edge, not with its far end. -/
def delNode (nodeId : UInt16) (graph : Graph) : Graph :=
  (graph.mapValues fun edges => edges.filter fun _ edge => edge.cost ≠ nodeId).erase nodeId

def writeHeader (env : Env) (r : Router) (size : UInt16) : Buffer :=
  ((((Buffer.malloc env.fresh size.toNat).store8 0 PacketType.ls.code).store16 2 (htons size)).store16 4
    (htons r.routerId)).store64 8 (htons r.sequenceNum.toUInt16).toUInt64

/-- The inner loop of `update_LS`: every neighbour is written to the same slot. -/
def writeSlot (neighborTable : NeighborTable) (msg : Buffer) (i : Nat) : Buffer :=
  neighborTable.entries.foldl (fun msg link =>
    (msg.store16 i (htons link.1)).store16 (i + 2) (htons link.2.cost)) msg

/-- The packet that `update_LS` floods. -/
def lsPacket (env : Env) (r : Router) : Packet :=
  let size : UInt16 := UInt16.ofNat (12 + r.neighborTable.size * 4)
  ⟨(loopOffsets 12 size.toNat 4).foldl (writeSlot r.neighborTable) (writeHeader env r size), size⟩

/-- The neighbours and costs that the loop of `recv_LS` reads. -/
def readEntries (msg : Memory) (size : UInt16) : List (UInt16 × UInt16) :=
  (loopOffsets 12 size.toNat 4).map fun i => (ntohs (msg.load16 i), ntohs (msg.load16 (i + 2)))

/-- `send_LS`: a copy to every neighbour but the one behind `port`. The copies hold the first `size` bytes of
the packet, which is all of it unless `size` has wrapped around to less than the header; `update_LS` has then
written beyond its block, which is what the module on the bounds of packets is about. -/
def sendLS (r : Router) (msg : Packet) (port : UInt16) : List SysCall :=
  (r.neighborTable.entries.filter fun link => link.2.port ≠ port).map fun link =>
    .send link.2.port msg

def ownEdges (env : Env) (r : Router) : Graph :=
  r.neighborTable.entries.foldl (fun graph link => addEdge env r.routerId link.1 link.2.cost graph)
    (delNode r.routerId r.graph)

def updateLS (env : Env) (r : Router) : Router × List SysCall :=
  ({ r with graph := ownEdges env r, sequenceNum := r.sequenceNum + 1 },
    sendLS r (lsPacket env r) specialPort)

/-- The local variables of `update_forwarding_table`, with the two tables it reads by `[]`. -/
structure Search where
  graph : Graph
  portTable : PortTable
  distance : Table UInt16 UInt16
  nextHop : Table UInt16 UInt16
  visited : Table UInt16 Bool
  minq : List (UInt16 × UInt16)

/-- The order of `pair<unsigned short, unsigned short>`. -/
def disDestLe (a b : UInt16 × UInt16) : Prop := a.1 < b.1 ∨ a.1 = b.1 ∧ a.2 ≤ b.2

instance : DecidableRel disDestLe := fun a b => by unfold disDestLe; infer_instance

/-- `minq.push`; the queue is kept in the order in which `top` and `pop` would empty it. -/
def push (minq : List (UInt16 × UInt16)) (p : UInt16 × UInt16) : List (UInt16 × UInt16) :=
  minq.orderedInsert disDestLe p

def seedLink (env : Env) (s : Search) (link : UInt16 × Link) : Search :=
  let (hop, portTable) := s.portTable.index env.layout link.2.port 0
  { s with
    portTable := portTable
    distance := s.distance.insert env.layout link.1 link.2.cost
    nextHop := s.nextHop.insert env.layout link.1 hop
    minq := push s.minq (link.2.cost, link.1) }

def initSearch (env : Env) (r : Router) : Search :=
  r.neighborTable.entries.foldl (seedLink env)
    { graph := r.graph
      portTable := r.portTable
      distance := Table.empty.insert env.layout r.routerId 0
      nextHop := Table.empty.insert env.layout r.routerId r.routerId
      visited := Table.empty.insert env.layout r.routerId true
      minq := [] }

/-- One turn of the loop over `graph[u]`. The sum is compared as an `int` and stored in 16 bits;
`u` has been queued, so `distance[u]` and `next_hop[u]` are there. -/
def relax (env : Env) (u : UInt16) (s : Search) (edge : UInt16 × Edge) : Search :=
  let du := s.distance.getD u 0
  let better : Bool :=
    match s.distance.get? edge.1 with
    | none => true
    | some dv => dv.toNat > du.toNat + edge.2.cost.toNat
  if better then
    { s with
      distance := s.distance.insert env.layout edge.1 (du + edge.2.cost)
      nextHop := s.nextHop.insert env.layout edge.1 (s.nextHop.getD u 0)
      minq := push s.minq (du + edge.2.cost, edge.1) }
  else s

/-- One turn of the main loop on a nonempty queue. -/
def visit (env : Env) (s : Search) (u : UInt16) (minq : List (UInt16 × UInt16)) : Search :=
  let s := { s with minq := minq }
  if s.visited.getD u false then s
  else
    let (edges, graph) := s.graph.index env.layout u .empty
    edges.entries.foldl (relax env u)
      { s with graph := graph, visited := s.visited.insert env.layout u true }

/-- The main loop. Every turn takes one entry off the queue; `searchFuel` bounds the turns. -/
def search (env : Env) : Nat → Search → Search
  | 0, s => s
  | fuel + 1, s =>
    match s.minq with
    | [] => s
    | top :: minq => search env fuel (visit env s top.2 minq)

/-- One turn for each neighbour queued at the start and for each edge that can queue its end. -/
def searchFuel (r : Router) : Nat :=
  r.neighborTable.size + (r.graph.entries.map fun row => row.2.size).sum

def collectRoutes (env : Env) (r : Router) (s : Search) : RoutingTable :=
  s.distance.entries.foldl (fun routingTable destDis =>
    if destDis.1 = r.routerId then routingTable
    else routingTable.insert env.layout destDis.1 ⟨destDis.2, s.nextHop.getD destDis.1 0⟩) .empty

def updateForwardingTable (env : Env) (r : Router) : Router :=
  let s := search env (searchFuel r) (initSearch env r)
  { r with routingTable := collectRoutes env r s, graph := s.graph, portTable := s.portTable }

def sourceOf (msg : Memory) : UInt16 := ntohs (msg.load16 4)

def sequenceOf (msg : Memory) : UInt64 := (ntohs (msg.load16 8)).toUInt64

def isOld (r : Router) (msg : Memory) : Bool :=
  match r.maxSequenceNum.get? (sourceOf msg) with
  | none => false
  | some newest => newest ≥ sequenceOf msg

/-- The graph with the adjacency of the source replaced by the one in the packet. -/
def recvGraph (env : Env) (msg : Packet) (graph : Graph) : Graph :=
  (readEntries msg.block.memory msg.size).foldl
    (fun graph entry => addEdge env (sourceOf msg.block.memory) entry.1 entry.2 graph)
    (delNode (sourceOf msg.block.memory) graph)

def recvLS (env : Env) (port : UInt16) (msg : Packet) (r : Router) : Router × List SysCall :=
  if isOld r msg.block.memory then (r, [])
  else
    let r := { r with
      maxSequenceNum := r.maxSequenceNum.insert env.layout (sourceOf msg.block.memory)
        (sequenceOf msg.block.memory)
      graph := recvGraph env msg r.graph }
    let r := updateForwardingTable env r
    (r, sendLS r msg port)

end Comp556.Ls
