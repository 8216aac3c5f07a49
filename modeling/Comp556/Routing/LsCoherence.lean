import Comp556.Routing.Events
import Comp556.Routing.LsSearch
import Comp556.Routing.Ports

/-!
# A link-state router over whole runs

`routing_table` is a copy of what `update_forwarding_table` computes. Only `recv_LS` renews the copy;
`update_LS` changes the graph and leaves the copy behind.
-/

namespace Comp556.Ls

open Router

variable {r r' : Router}

/-- `routing_table` is what `update_forwarding_table` would compute now, in any environment. -/
def Coherent (r : Router) : Prop :=
  ∀ env d, r.routingTable.get? d = (updateForwardingTable env r).routingTable.get? d

theorem Coherent.of_same (h : Coherent r) (hinputs : SameInputs r r')
    (hroutes : ∀ d, r'.routingTable.get? d = r.routingTable.get? d) : Coherent r' := by
  intro env d
  rw [hroutes d, h env d, updateForwardingTable_congr env env hinputs d]

theorem Coherent.rebuilt (env : Env) (r : Router) : Coherent (updateForwardingTable env r) :=
  fun env' d => (updateForwardingTable_congr env env' (updateForwardingTable_inputs env r) d).symm

theorem Coherent.init (numPorts routerId : UInt16) : Coherent (Router.init numPorts routerId .ls) := by
  intro env d
  cases h : (updateForwardingTable env (Router.init numPorts routerId .ls)).routingTable.get? d with
  | none => rfl
  | some route =>
    obtain ⟨n, link, hlink, _⟩ := updateForwardingTable_hop env h
    cases hlink

theorem Coherent.neighbor (h : Coherent r) {n : UInt16} {link : Link}
    (hlink : r.neighborTable.get? n = some link) (hn : n ≠ r.routerId) :
    (r.routingTable.get? n).isSome := by
  rw [h (sampleEnv 0) n]
  exact updateForwardingTable_neighbor _ hlink hn

theorem Coherent.hop (h : Coherent r) {attached : UInt16 → UInt16} (hports : PortsMatch attached r)
    {d : UInt16} {route : Route} (hroute : r.routingTable.get? d = some route) :
    (r.neighborTable.get? route.nextHop).isSome := by
  rw [h (sampleEnv 0) d] at hroute
  obtain ⟨n, link, hlink, hhop⟩ := updateForwardingTable_hop _ hroute
  rw [hopOf, Table.getD_of_get? 0 (hports.linked n link hlink)] at hhop
  simp [hhop, hlink]

/-- No edge between two other routers costs as much as this router's id, so that `del_node` takes
away no edge that the forwarding table is made from. -/
def NoClash (r : Router) : Prop :=
  ∀ a b edge, a ≠ r.routerId → b ≠ r.routerId → edgeAt r.graph a b = some edge → edge.cost ≠ r.routerId

private theorem edgeAt_ownEdges (env : Env) (r : Router) {a b : UInt16} (ha : a ≠ r.routerId)
    (hb : b ≠ r.routerId) :
    edgeAt (ownEdges env r) a b = (edgeAt r.graph a b).filter fun edge => edge.cost ≠ r.routerId := by
  have hfold : ownEdges env r = (r.neighborTable.entries.map fun e => (e.1, e.2.cost)).foldl
      (fun graph entry => addEdge env r.routerId entry.1 entry.2 graph) (delNode r.routerId r.graph) := by
    rw [List.foldl_map]
    rfl
  rw [hfold, edgeAt_addEdges, if_neg ha, if_neg hb, edgeAt_delNode, if_neg ha]

private theorem updateLS_inputs (env : Env) (h : NoClash r) : SameInputs r (updateLS env r).1 where
  routerId := rfl
  link _ := rfl
  edge a b ha hb := by
    change (edgeAt (ownEdges env r) a b).map Edge.cost = _
    rw [edgeAt_ownEdges env r ha hb]
    cases hedge : edgeAt r.graph a b with
    | none => rfl
    | some edge => simp [Option.filter, h a b edge ha hb hedge]

private theorem edgeAt_dropStaleEdges (env : Env) (graph : Graph) (a b : UInt16) :
    edgeAt (dropStaleEdges env graph) a b =
      (edgeAt graph a b).filter fun edge => ¬ env.time ≥ edge.timeout := by
  rw [edgeAt, dropStaleEdges, Table.get?_mapValues, edgeAt]
  cases graph.get? a with
  | none => rfl
  | some edges => simp [Table.get?_filter]

/-- A pong for this router comes from a neighbour that has this cost and this next hop already; if
the port is on record for another router with another cost, `update_LS` runs, which needs `NoClash`. -/
def QuietPong (env : Env) (port : UInt16) (msg : Memory) (r : Router) : Prop :=
  r.routerId = ntohs (msg.load16 6) →
    let neighborRouterId := ntohs (msg.load16 4)
    let rtt := roundTripTime env msg
    ∃ prevId prev link, r.portTable.get? port = some prevId ∧ r.neighborTable.get? prevId = some prev ∧
      r.neighborTable.get? neighborRouterId = some link ∧ neighborRouterId ≠ r.routerId ∧
      link.cost = rtt ∧ hopOf r link = prevId ∧ (prev.cost ≠ rtt → NoClash r)

/-- No neighbour and no edge between two other routers is past its deadline, and if some other edge
is, `update_LS` takes no edge away. -/
def QuietSweep (env : Env) (r : Router) : Prop :=
  (∀ n link, r.neighborTable.get? n = some link → ¬ env.time ≥ link.timeout) ∧
    (∀ a b edge, a ≠ r.routerId → b ≠ r.routerId → edgeAt r.graph a b = some edge →
      ¬ env.time ≥ edge.timeout) ∧
    (hasStaleEdge env r.graph = true → NoClash r)

/-- The event changes no link and no edge that the forwarding table is made from, unless it is an LS
packet, which brings the table up to date. -/
def Quiet (env : Env) (r : Router) : Event → Prop
  | .packet port packet =>
    PacketType.ofCode (packet.block.memory 0) = some .pong → QuietPong env port packet.block.memory r
  | .alarm .ls => NoClash r
  | .alarm .port => QuietSweep env r
  | .alarm _ => True

/-- The events of LS mode: no DV packets and no DV alarms. -/
def LsEvent : Event → Prop
  | .packet _ packet => PacketType.ofCode (packet.block.memory 0) ≠ some .dv
  | .alarm alarm => alarm ≠ .dv

def LsReachable (numPorts routerId : UInt16) (r : Router) : Prop :=
  Reaches LsEvent (Router.init numPorts routerId .ls) r

/-- What an event of LS mode leaves of a router. -/
inductive LsHandled (env : Env) (r : Router) : Event → Router → Prop
  | kept (event : Event) : LsHandled env r event r
  | pong (port : UInt16) (packet : Packet)
      (htype : PacketType.ofCode (packet.block.memory 0) = some .pong) :
      LsHandled env r (.packet port packet) (recvPong env port packet.block.memory r).1
  | advertisement (port : UInt16) (packet : Packet) :
      LsHandled env r (.packet port packet) (recvLS env port packet r).1
  | issued : LsHandled env r (.alarm .ls) (updateLS env r).1
  | swept (r' : Router) (calls : List SysCall) (hrun : updateTimeout env r = some (r', calls)) :
      LsHandled env r (.alarm .port) r'

theorem LsHandled.of_handle {env : Env} {event : Event} {calls : List SysCall} (hevent : LsEvent event)
    (hhandle : handle env r event = some (r', calls)) : LsHandled env r event r' := by
  cases event with
  | packet port packet =>
    simp only [Router.handle, Router.recv] at hhandle
    simp only [LsEvent] at hevent
    cases htype : PacketType.ofCode (packet.block.memory 0) with
    | none =>
      rw [htype] at hhandle
      exact final_eq hhandle ▸ .kept _
    | some type =>
      rw [htype] at hhandle hevent
      cases type with
      | pong => exact final_eq hhandle ▸ .pong port packet htype
      | ls => exact final_eq hhandle ▸ .advertisement port packet
      | dv => exact absurd rfl hevent
      | data => exact final_eq hhandle ▸ .kept _
      | ping => exact final_eq hhandle ▸ .kept _
  | alarm alarm =>
    cases alarm with
    | ls => exact final_eq hhandle ▸ .issued
    | port =>
      obtain ⟨⟨r'', calls'⟩, hrun, heq⟩ := Option.map_eq_some_iff.mp hhandle
      exact (Prod.mk.inj heq).1 ▸ .swept r'' calls' hrun
    | dv => exact absurd rfl hevent
    | ping => exact final_eq hhandle ▸ .kept _

theorem recvPong_ls (env : Env) (port : UInt16) (msg : Memory) (hmode : r.protocolType = .ls)
    (hdest : r.routerId = ntohs (msg.load16 6)) :
    let noted := notePong env port (ntohs (msg.load16 4)) (roundTripTime env msg) r
    (recvPong env port msg r).1 = if noted.2.2 then (updateLS env noted.1).1 else noted.1 := by
  have hkeeps : (notePong env port (ntohs (msg.load16 4)) (roundTripTime env msg) r).1.protocolType = .ls := by
    unfold notePong
    split <;> exact hmode
  simp only [recvPong, if_pos hdest, hkeeps]
  split <;> rfl

/-- The router after the sweep over links and edges. -/
def sweep (env : Env) (r : Router) : Router :=
  { dropExpired env r with graph := dropStaleEdges env (dropExpired env r).graph }

theorem updateTimeout_ls (env : Env) (hmode : r.protocolType = .ls) :
    updateTimeout env r = some (
      if expired env r.neighborTable ≠ [] ∨ hasStaleEdge env r.graph then updateLS env (sweep env r)
      else (sweep env r, [])) := by
  have hmode' : (dropExpired env r).protocolType = .ls := by
    rw [dropExpired_keeps]
    exact hmode
  have hgraph : (dropExpired env r).graph = r.graph := by rw [dropExpired_keeps]
  simp [updateTimeout, sweep, hmode', hgraph]

private theorem updateLS_coherent (env : Env) (h : Coherent r) (hclash : NoClash r) :
    Coherent (updateLS env r).1 :=
  h.of_same (updateLS_inputs env hclash) fun _ => rfl

private theorem recvPong_coherent {env : Env} {port : UInt16} {msg : Memory} (h : Coherent r)
    (hmode : r.protocolType = .ls) (hquiet : QuietPong env port msg r) :
    Coherent (recvPong env port msg r).1 := by
  by_cases hdest : r.routerId = ntohs (msg.load16 6)
  · obtain ⟨prevId, prev, link, hport, hprev, hlink, hself, hcost, hhop, hclash⟩ := hquiet hdest
    obtain ⟨route, hroute⟩ := Option.isSome_iff_exists.mp (h.neighbor hlink hself)
    let n := ntohs (msg.load16 4)
    let rtt := roundTripTime env msg
    let noted : Router :=
      { r with neighborTable := r.neighborTable.insert env.layout n (freshLink env port rtt) }
    have hnote : notePong env port n rtt r = (noted, route.cost, decide (prev.cost ≠ rtt)) := by
      simp only [notePong, hport, Table.index_of_get? _ hprev]
      rw [Table.index_of_get? _ hroute]
    have hsame : SameInputs r noted := by
      refine ⟨rfl, fun m => ?_, fun _ _ _ _ => rfl⟩
      have hhops (link : Link) : hopOf noted link = hopOf r link := rfl
      simp only [hhops, noted, Table.get?_insert]
      by_cases hm : m = n
      · have hfresh : hopOf r (freshLink env port rtt) = prevId := Table.getD_of_get? 0 hport
        have hn : r.neighborTable.get? n = some link := hlink
        have hrtt : (freshLink env port rtt).cost = rtt := rfl
        simp [hm, hn, hfresh, hhop, hrtt, rtt, hcost]
      · rw [if_neg hm]
    have hnoted : Coherent noted := h.of_same hsame fun _ => rfl
    rw [recvPong_ls env port msg hmode hdest, hnote]
    dsimp only
    split
    · rename_i hchanged
      exact updateLS_coherent env hnoted (hclash (by simpa using hchanged))
    · exact hnoted
  · rw [recvPong, if_neg hdest]
    exact h

private theorem updateTimeout_coherent {env : Env} {calls : List SysCall} (h : Coherent r)
    (hmode : r.protocolType = .ls) (hquiet : QuietSweep env r)
    (hrun : updateTimeout env r = some (r', calls)) : Coherent r' := by
  obtain ⟨hlinks, hedges, hclash⟩ := hquiet
  have hnone : expired env r.neighborTable = [] := by
    rw [expired, List.filter_eq_nil_iff]
    intro e he
    simpa using hlinks e.1 e.2 ((Table.mem_entries_iff ..).mp he)
  have hswept : sweep env r = { r with graph := dropStaleEdges env r.graph } := by
    rw [sweep, dropExpired, hnone, List.foldl_nil]
  have hkept (a b : UInt16) (ha : a ≠ r.routerId) (hb : b ≠ r.routerId) :
      edgeAt (sweep env r).graph a b = edgeAt r.graph a b := by
    rw [hswept, edgeAt_dropStaleEdges]
    cases hedge : edgeAt r.graph a b with
    | none => rfl
    | some edge => simpa [Option.filter] using hedges a b edge ha hb hedge
  have hcoherent : Coherent (sweep env r) := by
    refine h.of_same ⟨?_, fun n => ?_, fun a b ha hb => by rw [hkept a b ha hb]⟩ fun d => ?_ <;>
      rw [hswept]
    rfl
  rw [updateTimeout_ls env hmode] at hrun
  rw [← final_eq hrun]
  split
  · rename_i hstale
    apply updateLS_coherent env hcoherent
    intro a b edge ha hb hedge
    have hid : (sweep env r).routerId = r.routerId := by rw [hswept]
    rw [hid] at ha hb ⊢
    rw [hkept a b ha hb] at hedge
    exact hclash (hstale.resolve_left fun hne => hne hnone) a b edge ha hb hedge
  · exact hcoherent

private theorem recvLS_coherent (env : Env) (port : UInt16) (msg : Packet) (h : Coherent r) :
    Coherent (recvLS env port msg r).1 := by
  unfold recvLS
  split
  · exact h
  · exact .rebuilt env _

theorem Coherent.handled {env : Env} {event : Event} (h : Coherent r) (hmode : r.protocolType = .ls)
    (hquiet : Quiet env r event) (hhandled : LsHandled env r event r') : Coherent r' := by
  cases hhandled with
  | kept => exact h
  | pong port packet htype => exact recvPong_coherent h hmode (hquiet htype)
  | advertisement port packet => exact recvLS_coherent env port packet h
  | issued => exact updateLS_coherent env h hquiet
  | swept _ _ hrun => exact updateTimeout_coherent h hmode hquiet hrun

/-- An LS packet that is not discarded. -/
def Rebuilds (r : Router) : Event → Prop
  | .packet _ packet =>
    PacketType.ofCode (packet.block.memory 0) = some .ls ∧ isOld r packet.block.memory = false
  | .alarm _ => False

/-- The states of LS mode in which every event since the last accepted LS packet, or since `init` if
there was none, has been quiet. -/
inductive Settled (numPorts routerId : UInt16) : Router → Prop
  | init : Settled numPorts routerId (Router.init numPorts routerId .ls)
  | rebuilt {r r' : Router} {env : Env} {event : Event} {calls : List SysCall} :
      LsReachable numPorts routerId r → Rebuilds r event → handle env r event = some (r', calls) →
      Settled numPorts routerId r'
  | quiet {r r' : Router} {env : Env} {event : Event} {calls : List SysCall} :
      Settled numPorts routerId r → LsEvent event → Quiet env r event →
      handle env r event = some (r', calls) → Settled numPorts routerId r'

/-- The identity of a router, its mode and its ports never change. -/
structure KeepsMode (r r' : Router) : Prop where
  routerId : r'.routerId = r.routerId
  protocolType : r'.protocolType = r.protocolType
  numPorts : r'.numPorts = r.numPorts

theorem notePong_keepsMode (env : Env) (port id rtt : UInt16) (r : Router) :
    KeepsMode r (notePong env port id rtt r).1 := by
  unfold notePong
  split <;> exact ⟨rfl, rfl, rfl⟩

theorem sweep_keepsMode (env : Env) (r : Router) : KeepsMode r (sweep env r) := by
  rw [sweep, dropExpired_keeps]
  exact ⟨rfl, rfl, rfl⟩

private theorem LsHandled.keepsMode {env : Env} {event : Event} (h : LsHandled env r event r')
    (hmode : r.protocolType = .ls) : KeepsMode r r' := by
  cases h with
  | kept => exact ⟨rfl, rfl, rfl⟩
  | pong port packet =>
    by_cases hdest : r.routerId = ntohs (packet.block.memory.load16 6)
    · have hnoted := notePong_keepsMode env port (ntohs (packet.block.memory.load16 4))
        (roundTripTime env packet.block.memory) r
      rw [recvPong_ls env port packet.block.memory hmode hdest]
      split <;> exact ⟨hnoted.routerId, hnoted.protocolType, hnoted.numPorts⟩
    · rw [recvPong, if_neg hdest]
      exact ⟨rfl, rfl, rfl⟩
  | advertisement port packet =>
    unfold recvLS
    split <;> exact ⟨rfl, rfl, rfl⟩
  | issued => exact ⟨rfl, rfl, rfl⟩
  | swept _ _ hrun =>
    have hswept := sweep_keepsMode env r
    rw [updateTimeout_ls env hmode] at hrun
    rw [← final_eq hrun]
    split <;> exact ⟨hswept.routerId, hswept.protocolType, hswept.numPorts⟩

theorem LsReachable.mode {numPorts routerId : UInt16} (h : LsReachable numPorts routerId r) :
    r.routerId = routerId ∧ r.protocolType = .ls := by
  apply run_invariant (fun r => r.routerId = routerId ∧ r.protocolType = .ls) h ⟨rfl, rfl⟩
  rintro s s' ⟨hid, hmode⟩ ⟨env, event, calls, hevent, hhandle⟩
  have hkeeps := (LsHandled.of_handle hevent hhandle).keepsMode hmode
  exact ⟨hkeeps.routerId.trans hid, hkeeps.protocolType.trans hmode⟩

private theorem Rebuilds.lsEvent {event : Event} (h : Rebuilds r event) : LsEvent event := by
  cases event with
  | packet port packet => exact fun hdv => by simp [h.1] at hdv
  | alarm alarm => exact h.elim

theorem Settled.reachable {numPorts routerId : UInt16} (h : Settled numPorts routerId r) :
    LsReachable numPorts routerId r := by
  induction h with
  | init => exact .refl
  | rebuilt hreach hrebuilds hhandle => exact hreach.tail ⟨_, _, _, hrebuilds.lsEvent, hhandle⟩
  | quiet _ hevent _ hhandle ih => exact ih.tail ⟨_, _, _, hevent, hhandle⟩

private theorem Settled.coherent {numPorts routerId : UInt16} (h : Settled numPorts routerId r) :
    Coherent r := by
  induction h with
  | init => exact .init numPorts routerId
  | @rebuilt r r' env event calls _ hrebuilds hhandle =>
    cases event with
    | packet port packet =>
      simp only [Router.handle, Router.recv, hrebuilds.1] at hhandle
      have hrun : (recvLS env port packet r).1 = r' := final_eq hhandle
      rw [← hrun, recvLS, if_neg (by simp [hrebuilds.2])]
      exact .rebuilt env _
    | alarm alarm => exact hrebuilds.elim
  | quiet hsettled hevent hquiet hhandle ih =>
    exact ih.handled hsettled.reachable.mode.2 hquiet (.of_handle hevent hhandle)

section Wired

variable {attached : UInt16 → UInt16} {numPorts routerId : UInt16}

/-- The events of LS mode in which every pong comes from the router attached to its port. -/
def WiredEvent (attached : UInt16 → UInt16) (numPorts : UInt16) (event : Event) : Prop :=
  LsEvent event ∧ ∀ port packet, event = .packet port packet →
    PacketType.ofCode (packet.block.memory 0) = some .pong → FromAttached attached numPorts port packet

theorem LsHandled.portsMatch {env : Env} {event : Event} (h : LsHandled env r event r')
    (hmode : r.protocolType = .ls) (hports : PortsMatch attached r)
    (ha : Attached attached r.numPorts r.routerId) (hevent : WiredEvent attached r.numPorts event) :
    PortsMatch attached r' := by
  cases h with
  | kept => exact hports
  | pong port packet htype =>
    obtain ⟨hlt, hsource⟩ := hevent.2 port packet rfl htype
    have hnoted := hports.notePong env port (roundTripTime env packet.block.memory) ha hlt
    by_cases hdest : r.routerId = ntohs (packet.block.memory.load16 6)
    · rw [recvPong_ls env port packet.block.memory hmode hdest, hsource]
      split
      · exact hnoted.congr rfl rfl rfl
      · exact hnoted
    · rw [recvPong, if_neg hdest]
      exact hports
  | advertisement port packet =>
    unfold recvLS
    split
    · exact hports
    · refine hports.congr ?_ rfl rfl
      exact updateForwardingTable_ports env fun n link hlink => by simp [hports.linked n link hlink]
  | issued => exact hports.congr rfl rfl rfl
  | swept _ _ hrun =>
    have hswept := hports.dropExpired env
    rw [updateTimeout_ls env hmode] at hrun
    rw [← final_eq hrun]
    split <;> exact hswept.congr rfl rfl rfl

theorem wired_portsMatch (ha : Attached attached numPorts routerId)
    (hrun : Reaches (WiredEvent attached numPorts) (Router.init numPorts routerId .ls) r) :
    PortsMatch attached r ∧ r.numPorts = numPorts := by
  refine (run_invariant (fun r => (r.routerId = routerId ∧ r.protocolType = .ls) ∧
    PortsMatch attached r ∧ r.numPorts = numPorts) hrun ⟨⟨rfl, rfl⟩, .init .., rfl⟩ ?_).2
  rintro s s' ⟨⟨hid, hmode⟩, hports, hnum⟩ ⟨env, event, calls, hevent, hhandle⟩
  have hhandled := LsHandled.of_handle hevent.1 hhandle
  have hkeeps := hhandled.keepsMode hmode
  refine ⟨⟨hkeeps.routerId.trans hid, hkeeps.protocolType.trans hmode⟩, ?_, hkeeps.numPorts.trans hnum⟩
  exact hhandled.portsMatch hmode hports (by rwa [hnum, hid]) (by rwa [hnum])

end Wired

/-- As long as every event since the last accepted LS packet is quiet, `routing_table` is what
`update_forwarding_table` would compute. So every other router among the neighbours is routed; and where
every pong comes from the router attached to its port, every neighbour is routed and every next hop is a
neighbour. -/
theorem settled_coherent {numPorts routerId : UInt16} (h : Settled numPorts routerId r) :
    (∀ env d, r.routingTable.get? d = (updateForwardingTable env r).routingTable.get? d) ∧
      (∀ n, n ∈ r.neighborTable.keys → n ≠ routerId → n ∈ r.routingTable.keys) ∧
      ∀ attached, Attached attached numPorts routerId →
        Reaches (WiredEvent attached numPorts) (Router.init numPorts routerId .ls) r →
        (∀ n, n ∈ r.neighborTable.keys → n ∈ r.routingTable.keys) ∧
          ∀ d route, r.routingTable.get? d = some route → route.nextHop ∈ r.neighborTable.keys := by
  have hcoherent := h.coherent
  obtain ⟨hid, _⟩ := h.reachable.mode
  simp only [Table.mem_keys_iff]
  have hrouted (n : UInt16) (hn : (r.neighborTable.get? n).isSome) (hself : n ≠ routerId) :
      (r.routingTable.get? n).isSome := by
    obtain ⟨link, hlink⟩ := Option.isSome_iff_exists.mp hn
    exact hcoherent.neighbor hlink (hid ▸ hself)
  refine ⟨hcoherent, hrouted, fun attached ha hrun => ?_⟩
  obtain ⟨hports, hnum⟩ := wired_portsMatch ha hrun
  refine ⟨fun n hn => hrouted n hn ?_, fun d route hroute => hcoherent.hop hports hroute⟩
  obtain ⟨link, hlink⟩ := Option.isSome_iff_exists.mp hn
  obtain ⟨hlt, hatt⟩ := hports.attached_of_link hlink
  exact hatt ▸ ha.ne_self _ (hnum ▸ hlt)

def firstNeighbor : Packet := samplePacket [(0, 4), (5, 10), (13, 1), (15, 5)] 16

def lsPong : Packet := samplePacket [(0, 2), (5, 10), (7, 1)] 12

def pongedRouter : Router := (recvPong (sampleEnv 5) 0 lsPong.block.memory (Router.init 1 1 .ls)).1

def advertisedRouter : Router := (recvLS (sampleEnv 6) 0 firstNeighbor pongedRouter).1

private theorem ponged_reachable : LsReachable 1 1 pongedRouter :=
  .single ⟨sampleEnv 5, .packet 0 lsPong, _,
    show PacketType.ofCode (lsPong.block.memory 0) ≠ some .dv by decide, rfl⟩

private theorem advertised_settled : Settled 1 1 advertisedRouter := by
  have htype : PacketType.ofCode (firstNeighbor.block.memory 0) = some .ls := by decide
  have hrebuilds : Rebuilds pongedRouter (.packet 0 firstNeighbor) := ⟨htype, by decide⟩
  have hrun : handle (sampleEnv 6) pongedRouter (.packet 0 firstNeighbor) =
      some (recvLS (sampleEnv 6) 0 firstNeighbor pongedRouter) := by
    simp only [handle, Router.recv, htype]
  exact .rebuilt ponged_reachable hrebuilds hrun

theorem advertised_routed : 10 ∈ advertisedRouter.routingTable.keys :=
  (settled_coherent advertised_settled).2.1 10 (by decide +kernel) (by decide)

/-- After its first pong the router has a neighbour and no route to it. -/
theorem ponged_incoherent :
    LsReachable 1 1 pongedRouter ∧ 10 ∈ pongedRouter.neighborTable.keys ∧
      pongedRouter.routingTable.get? 10 = none ∧
      (updateForwardingTable (sampleEnv 5) pongedRouter).routingTable.get? 10 = some ⟨5, 10⟩ :=
  ⟨ponged_reachable, by decide +kernel⟩

end Comp556.Ls
