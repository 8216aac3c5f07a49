import Comp556.Routing.Router

/-!
# Distance-vector handlers

The member functions of `DVProImp`. Dereferencing `find` of a missing key has no defined result
and is modelled by `none`; `operator[]` on a missing key enters the default value.
-/

namespace Comp556.Dv

def renewed (env : Env) : UInt32 := env.time + dvLsTimeout

/-- The cost `send_DV` announces for a route: poisoned when it goes back through its reader. -/
def announcedCost (destId nodeId : UInt16) (route : Route) : UInt16 :=
  if destId = route.nextHop ∧ nodeId ≠ destId then infinityCost else route.cost

def writeHeader (env : Env) (r : Router) (destId size : UInt16) : Buffer :=
  ((((Buffer.malloc env.fresh size.toNat).store8 0 PacketType.dv.code).store16 2 (htons size)).store16 4
    (htons r.routerId)).store16 6 (htons destId)

def writeEntry (destId : UInt16) : Nat × Buffer → UInt16 × Route → Nat × Buffer
  | (i, packet), (nodeId, route) =>
    (i + 1, (packet.store16 (8 + i * 4) (htons nodeId)).store16 (10 + i * 4)
      (htons (announcedCost destId nodeId route)))

/-- The packet that `send_DV` builds for the neighbour `destId`. -/
def dvPacket (env : Env) (r : Router) (destId : UInt16) : Packet :=
  let numEntries : UInt16 := UInt16.ofNat r.routingTable.size
  let size : UInt16 := 8 + numEntries * 4
  let packet := r.routingTable.entries.foldl (writeEntry destId) (0, writeHeader env r destId size)
  ⟨packet.2, size⟩

def sendDV (env : Env) (r : Router) (portId destId : UInt16) : SysCall :=
  .send portId (dvPacket env r destId)

def send (env : Env) (r : Router) : List SysCall :=
  r.neighborTable.entries.map fun neighbor => sendDV env r neighbor.2.port neighbor.1

/-- `DV_table` as read from the entries of a packet. -/
def readTable (env : Env) (msg : Memory) (size : UInt16) : Table UInt16 UInt16 :=
  (loopOffsets 8 size.toNat 4).foldl (fun dvTable i =>
    dvTable.insert env.layout (ntohs (msg.load16 i)) (ntohs (msg.load16 (i + 2)))) .empty

/-- The rule of `recv` for the route to the sender itself. -/
def preferSource (env : Env) (sourceId : UInt16) (r : Router) (dvTable : Table UInt16 UInt16) :
    Router × Table UInt16 UInt16 :=
  match r.routingTable.get? sourceId with
  | none => (r, dvTable)
  | some route =>
    let (back, dvTable) := dvTable.index env.layout r.routerId 0
    if route.cost > back ∧ route.nextHop ≠ sourceId then
      ({ r with
          routingTable := r.routingTable.insert env.layout sourceId ⟨back, sourceId⟩
          isUpdated := false }, dvTable)
    else (r, dvTable)

def learnRoute (env : Env) (sourceId dest totalCost : UInt16) (r : Router) : Router :=
  { r with
    routingTable := r.routingTable.insert env.layout dest ⟨totalCost, sourceId⟩
    dvTime := r.dvTime.insert env.layout dest (renewed env)
    isUpdated := false }

/-- One turn of the loop of `recv` over `DV_table`. -/
def recvEntry (env : Env) (port sourceId : UInt16) (r : Router) (entry : UInt16 × UInt16) :
    Option Router :=
  if entry.1 = r.routerId then some r
  -- poisoned entries are skipped: the code that erased such a route is commented out
  else if entry.2 = infinityCost then some r
  else
    let (neighbor, portTable) := r.portTable.index env.layout port 0
    let r := { r with portTable := portTable }
    match r.neighborTable.get? neighbor with
    | none => none
    | some link =>
      let totalCost := entry.2 + link.cost
      match r.routingTable.get? entry.1 with
      | none => some (learnRoute env sourceId entry.1 totalCost r)
      | some route =>
        let r :=
          if route.nextHop = sourceId ∧ route.cost = totalCost then
            { r with dvTime := r.dvTime.insert env.layout entry.1 (renewed env) }
          else r
        if (route.nextHop = sourceId ∧ route.cost ≠ totalCost) ∨ route.cost > totalCost then
          some (learnRoute env sourceId entry.1 totalCost r)
        else some r

def announce (env : Env) (r : Router) : Router × List SysCall :=
  if r.isUpdated then (r, []) else ({ r with isUpdated := true }, send env r)

/-- `DVProImp::recv`. Nothing is ever added to `eraseNodes`, so its closing loop does nothing. -/
def recv (env : Env) (port : UInt16) (msg : Memory) (size : UInt16) (r : Router) :
    Option (Router × List SysCall) :=
  let sourceId := ntohs (msg.load16 4)
  if r.neighborTable.contains sourceId then
    let (r, dvTable) := preferSource env sourceId r (readTable env msg size)
    (dvTable.entries.foldlM (recvEntry env port sourceId) r).map (announce env)
  else some (r, [])

/-- One turn of the loop of `update` over `routing_table`. -/
def updateEntry (env : Env) (id difference : UInt16) (r : Router) (rEntry : UInt16 × Route) : Router :=
  let r :=
    if rEntry.2.nextHop = id then
      { r with
        routingTable := r.routingTable.modify env.layout rEntry.1 ⟨0, 0⟩ fun route =>
          { route with cost := route.cost + difference }
        dvTime := r.dvTime.insert env.layout rEntry.1 (renewed env) }
    else r
  match r.neighborTable.get? rEntry.1 with
  | none => r
  | some link =>
    if link.cost < (r.routingTable.getD rEntry.1 ⟨0, 0⟩).cost then
      { r with routingTable := r.routingTable.insert env.layout rEntry.1 ⟨link.cost, rEntry.1⟩ }
    else r

def setDirect (env : Env) (id cost : UInt16) (r : Router) : Router :=
  { r with
    routingTable := r.routingTable.insert env.layout id ⟨cost, id⟩
    dvTime := r.dvTime.insert env.layout id (renewed env) }

/-- `DVProImp::update`. -/
def update (env : Env) (id rtt oldRTT : UInt16) (r : Router) : Router :=
  let (r, upadte) :=
    match r.routingTable.get? id with
    | none => (setDirect env id rtt r, false)
    | some route =>
      if route.nextHop = id then (setDirect env id rtt r, true)
      else if rtt < route.cost then (setDirect env id rtt r, true)
      else (r, false)
  if upadte then r.routingTable.entries.foldl (updateEntry env id (rtt - oldRTT)) r else r

def dropRoute (id : UInt16) (r : Router) : Router :=
  { r with
    routingTable := r.routingTable.erase id
    dvTime := r.dvTime.erase id }

/-- One turn of the loop of `refresh` over `DV_time`. -/
def refreshEntry (env : Env) (r : Router) (dvEntry : UInt16 × UInt32) : Option Router :=
  match r.routingTable.get? dvEntry.1 with
  | none => none
  | some route =>
    let r :=
      if dvEntry.1 = route.nextHop then
        { r with dvTime := r.dvTime.insert env.layout dvEntry.1 (renewed env) }
      else r
    if env.time ≥ r.dvTime.getD dvEntry.1 0 then
      match r.neighborTable.get? dvEntry.1 with
      | some link => some { setDirect env dvEntry.1 link.cost r with isUpdated := false }
      | none => some { dropRoute dvEntry.1 r with isUpdated := false }
    else some r

/-- `DVProImp::refresh`. -/
def refresh (env : Env) (r : Router) : Option (Router × List SysCall) :=
  (r.dvTime.entries.foldlM (refreshEntry env) r).map (announce env)

/-- One turn of the second loop of `earseDV`, at a route whose next hop is gone. -/
def earseEntry (env : Env) (r : Router) (node : UInt16) : Router :=
  match r.neighborTable.get? node with
  | some link => setDirect env node link.cost r
  | none => dropRoute node r

/-- `DVProImp::earseDV`. -/
def earseDV (env : Env) (toEarse : List UInt16) (r : Router) : Router :=
  let id := (r.routingTable.entries.filter fun rEntry => rEntry.2.nextHop ∈ toEarse).map Prod.fst
  let r := if id = [] then r else { r with isUpdated := false }
  id.foldl (earseEntry env) r

end Comp556.Dv
