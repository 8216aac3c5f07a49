import Comp556.Routing.DistanceVector
import Comp556.Routing.LinkState

/-!
# The routing protocol

The member functions of `RoutingProtocolImpl` that face the simulator: alarms, received packets,
and the sweep over expired neighbours.
-/

namespace Comp556.Router

/-- What a handler leaves behind: the router and the calls it made, or nothing when it
dereferenced the end of a table. -/
abbrev Outcome := Option (Router × List SysCall)

def pingPongPacket (env : Env) (r : Router) (type : PacketType) : Buffer :=
  ((((Buffer.malloc env.fresh pingPongMsgSize.toNat).store8 0 type.code).store16 2
    (htons pingPongMsgSize)).store16 4 (htons r.routerId))

def sendPing (env : Env) (r : Router) (port : UInt16) : SysCall :=
  .send port ⟨(pingPongPacket env r .ping).store32 8 (htonl env.time), pingPongMsgSize⟩

def sendPings (env : Env) (r : Router) : List SysCall :=
  (List.range r.numPorts.toNat).map fun p => sendPing env r (UInt16.ofNat p)

/-- The calls that `init` makes. -/
def initCalls (env : Env) (r : Router) : List SysCall :=
  sendPings env r ++ [.setAlarm pingDuration .ping, .setAlarm timeoutDuration .port,
    match r.protocolType with
    | .dv => .setAlarm dvDuration .dv
    | .ls => .setAlarm lsDuration .ls]

def recvPingSendPong (env : Env) (port : UInt16) (msg : Memory) (r : Router) : List SysCall :=
  let dstId := ntohs (msg.load16 4)
  let timestamp := ntohl (msg.load32 8)
  [.send port ⟨((pingPongPacket env r .pong).store16 6 (htons dstId)).store32 8 (htonl timestamp),
    pingPongMsgSize⟩]

def roundTripTime (env : Env) (msg : Memory) : UInt16 :=
  (env.time - ntohl (msg.load32 8)).toUInt16

def freshLink (env : Env) (port rtt : UInt16) : Link := ⟨rtt, port, env.time + pongTimeout⟩

/-- The first half of `recv_pong`: the tables, `oldRTT`, and whether the cost of the link is new. -/
def notePong (env : Env) (port neighborRouterId rtt : UInt16) (r : Router) : Router × UInt16 × Bool :=
  match r.portTable.get? port with
  | some prevId =>
    let (prev, neighborTable) := r.neighborTable.index env.layout prevId ⟨0, 0, 0⟩
    let (old, routingTable) := r.routingTable.index env.layout neighborRouterId ⟨0, 0⟩
    ({ r with
        neighborTable := neighborTable.insert env.layout neighborRouterId (freshLink env port rtt)
        routingTable := routingTable }, old.cost, prev.cost ≠ rtt)
  | none =>
    ({ r with
        neighborTable := r.neighborTable.insert env.layout neighborRouterId (freshLink env port rtt)
        portTable := r.portTable.insert env.layout port neighborRouterId }, 0, true)

def recvPong (env : Env) (port : UInt16) (msg : Memory) (r : Router) : Router × List SysCall :=
  if r.routerId = ntohs (msg.load16 6) then
    let neighborRouterId := ntohs (msg.load16 4)
    let rtt := roundTripTime env msg
    let (r, oldRTT, update) := notePong env port neighborRouterId rtt r
    if update then
      match r.protocolType with
      | .ls => Ls.updateLS env r
      | .dv =>
        let r := Dv.update env neighborRouterId rtt oldRTT r
        (r, Dv.send env r)
    else (r, [])
  else (r, [])

def recvData (packet : Packet) (r : Router) : List SysCall :=
  let dest := ntohs (packet.block.memory.load16 6)
  if dest = r.routerId then []
  else
    match r.routingTable.get? dest with
    | none => []
    | some route =>
      match r.neighborTable.get? route.nextHop with
      | none => []
      | some link => [.send link.port packet]

/-- The sweep of `update_timeout` over `neighbor_table`: the neighbours whose deadline has passed. -/
def expired (env : Env) (neighborTable : NeighborTable) : List (UInt16 × Link) :=
  neighborTable.entries.filter fun neighbor => env.time ≥ neighbor.2.timeout

def dropNeighbor (r : Router) (neighbor : UInt16 × Link) : Router :=
  { r with
    neighborTable := r.neighborTable.erase neighbor.1
    portTable := r.portTable.erase neighbor.2.port }

def dropExpired (env : Env) (r : Router) : Router := (expired env r.neighborTable).foldl dropNeighbor r

def hasStaleEdge (env : Env) (graph : Graph) : Bool :=
  graph.entries.any fun row => row.2.entries.any fun edge => env.time ≥ edge.2.timeout

def dropStaleEdges (env : Env) (graph : Graph) : Graph :=
  graph.mapValues fun edges => edges.filter fun _ edge => ¬ env.time ≥ edge.timeout

def updateTimeout (env : Env) (r : Router) : Outcome :=
  let toEarse := (expired env r.neighborTable).map Prod.fst
  let changed : Bool := toEarse ≠ []
  let r := dropExpired env r
  match r.protocolType with
  | .dv => Dv.refresh env (if changed then Dv.earseDV env toEarse r else r)
  | .ls =>
    let changed := changed || hasStaleEdge env r.graph
    let r := { r with graph := dropStaleEdges env r.graph }
    some (if changed then Ls.updateLS env r else (r, []))

theorem updateTimeout_dv (env : Env) {r : Router} (hmode : (dropExpired env r).protocolType = .dv) :
    updateTimeout env r = Dv.refresh env
      (if decide ((expired env r.neighborTable).map Prod.fst ≠ []) then
        Dv.earseDV env ((expired env r.neighborTable).map Prod.fst) (dropExpired env r)
      else dropExpired env r) := by
  simp only [updateTimeout, hmode]

def handleAlarm (env : Env) (r : Router) : Alarm → Outcome
  | .ping => some (r, sendPings env r ++ [.setAlarm pingDuration .ping])
  | .dv => some (r, Dv.send env r ++ [.setAlarm dvDuration .dv])
  | .ls =>
    let (r, calls) := Ls.updateLS env r
    some (r, calls ++ [.setAlarm lsDuration .ls])
  | .port => (updateTimeout env r).map fun (r, calls) => (r, calls ++ [.setAlarm timeoutDuration .port])

/-- `RoutingProtocolImpl::recv`. -/
def recv (env : Env) (port : UInt16) (packet : Packet) (r : Router) : Outcome :=
  match PacketType.ofCode (packet.block.memory 0) with
  | some .ping => some (r, recvPingSendPong env port packet.block.memory r)
  | some .pong => some (recvPong env port packet.block.memory r)
  | some .dv => Dv.recv env port packet.block.memory packet.size r
  | some .ls => some (Ls.recvLS env port packet r)
  | some .data => some (r, recvData packet r)
  | none => some (r, [])

end Comp556.Router
