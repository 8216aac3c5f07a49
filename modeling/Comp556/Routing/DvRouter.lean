import Comp556.Routing.DvEffect
import Comp556.Routing.Events
import Comp556.Routing.Ports

/-!
# A distance-vector router over whole runs

The events of a router in DV mode, and the invariant that ties its four tables together: deadlines
belong to routes, every neighbour is routed, and every next hop is a neighbour.
-/

namespace Comp556

namespace Router

/-- The events of DV mode: pongs and DV packets come from the attached routers, and neither LS
packets nor LS alarms occur. -/
def DvEvent (attached : UInt16 → UInt16) (numPorts : UInt16) : Event → Prop
  | .packet port packet =>
    match PacketType.ofCode (packet.block.memory 0) with
    | some .pong => FromAttached attached numPorts port packet
    | some .dv => FromAttached attached numPorts port packet
    | some .ls => False
    | _ => True
  | .alarm alarm => alarm ≠ .ls

instance (attached : UInt16 → UInt16) (numPorts : UInt16) :
    (event : Event) → Decidable (DvEvent attached numPorts event)
  | .packet port packet => by
    dsimp only [DvEvent]
    cases PacketType.ofCode (packet.block.memory 0) with
    | none => exact isTrue trivial
    | some type => cases type <;> infer_instance
  | .alarm alarm => inferInstanceAs (Decidable (alarm ≠ .ls))

def DvReachable (attached : UInt16 → UInt16) (numPorts routerId : UInt16) (r : Router) : Prop :=
  Reaches (DvEvent attached numPorts) (Router.init numPorts routerId .dv) r

end Router

namespace Dv

open Router

/-- What holds of the entry of every destination `d`. -/
structure GoodEntry (links : NeighborTable) (routerId d : UInt16)
    (entry : Option Route × Option UInt32) : Prop where
  deadline : entry.2.isSome = entry.1.isSome
  neighbor : (links.get? d).isSome → entry.1.isSome
  no_self : d = routerId → entry.1 = none
  hop : ∀ route, entry.1 = some route → (links.get? route.nextHop).isSome

def TablesMatch (r : Router) : Prop := ∀ d, GoodEntry r.neighborTable r.routerId d (entryAt r d)

section Entry

variable {env : Env} {links : NeighborTable} {routerId d : UInt16}
  {entry : Option Route × Option UInt32}

theorem GoodEntry.neighbor_ne_self (h : GoodEntry links routerId d entry)
    (hd : (links.get? d).isSome) : d ≠ routerId := by
  intro hself
  have hroute := h.neighbor hd
  rw [h.no_self hself] at hroute
  exact absurd hroute (by simp)

private theorem GoodEntry.of_hop {route : Route} {time : UInt32} (hd : d ≠ routerId)
    (hhop : (links.get? route.nextHop).isSome) : GoodEntry links routerId d (some route, some time) where
  deadline := rfl
  neighbor _ := rfl
  no_self h := absurd h hd
  hop _ h := Option.some.inj h ▸ hhop

theorem GoodEntry.replace (h : GoodEntry links routerId d entry) (route : Route)
    (hroute : entry.1.isSome) (hhop : (links.get? route.nextHop).isSome) :
    GoodEntry links routerId d (some route, entry.2) where
  deadline := h.deadline.trans hroute
  neighbor _ := rfl
  no_self hd := by simp [h.no_self hd] at hroute
  hop _ heq := Option.some.inj heq ▸ hhop

private theorem GoodEntry.renew (h : GoodEntry links routerId d entry) {time : UInt32}
    (hroute : entry.1.isSome) :
    GoodEntry links routerId d (entry.1, some time) where
  deadline := hroute.symm
  neighbor := h.neighbor
  no_self := h.no_self
  hop := h.hop

theorem GoodEntry.preferred (h : GoodEntry links routerId d entry) {sourceId : UInt16} (back : UInt16)
    (hsource : (links.get? sourceId).isSome) :
    GoodEntry links routerId d (preferred sourceId back d entry) := by
  obtain ⟨_ | route, time⟩ := entry
  · exact h
  · simp only [Dv.preferred]
    split
    · exact h.replace ⟨back, sourceId⟩ rfl hsource
    · exact h

theorem GoodEntry.learned (h : GoodEntry links routerId d entry) (hd : d ≠ routerId)
    {sourceId totalCost : UInt16} (hsource : (links.get? sourceId).isSome) :
    GoodEntry links routerId d (learned env sourceId totalCost entry) := by
  obtain ⟨_ | route, time⟩ := entry
  · exact .of_hop hd hsource
  · simp only [Dv.learned]
    split
    · exact .of_hop hd hsource
    · split
      · exact h.renew rfl
      · exact h

theorem GoodEntry.received (h : GoodEntry links routerId d entry) {sourceId c back : UInt16}
    (hsource : (links.get? sourceId).isSome) (listed : Option UInt16) :
    GoodEntry links routerId d (received env routerId sourceId c back listed d entry) := by
  have hpreferred := h.preferred back hsource
  cases listed with
  | none => exact hpreferred
  | some a =>
    simp only [Dv.received]
    split
    · exact hpreferred
    · rename_i hd
      exact hpreferred.learned (fun heq => hd (.inl heq)) hsource

theorem GoodEntry.fallback (hd : (links.get? d).isSome → d ≠ routerId) :
    GoodEntry links routerId d (fallback env links d) := by
  unfold Dv.fallback
  cases hlink : links.get? d with
  | none => exact ⟨rfl, by simp [hlink], fun _ => rfl, by simp⟩
  | some link => exact .of_hop (hd (by simp [hlink])) (by simp [hlink])

theorem GoodEntry.refreshed (h : GoodEntry links routerId d entry) :
    GoodEntry links routerId d (refreshed env links d entry) := by
  obtain ⟨_ | route, _ | deadline⟩ := entry
  · exact h
  · exact h
  · exact h
  · simp only [Dv.refreshed]
    by_cases hdue : env.time ≥ if d = route.nextHop then renewed env else deadline
    · rw [if_pos hdue]
      exact .fallback h.neighbor_ne_self
    · rw [if_neg hdue]
      exact h.renew rfl

theorem GoodEntry.adjusted (h : GoodEntry links routerId d entry) {id difference : UInt16} :
    GoodEntry links routerId d (adjusted env id difference links d entry) := by
  obtain ⟨_ | route, time⟩ := entry
  · exact h
  · have htime (hop : Route) (hhop : (links.get? hop.nextHop).isSome) : GoodEntry links routerId d
        (some hop, if route.nextHop = id then some (renewed env) else time) := by
      have hcost := h.replace hop rfl hhop
      split
      · exact hcost.renew rfl
      · exact hcost
    have hhop := h.hop route rfl
    cases hlink : links.get? d with
    | none =>
      simp only [Dv.adjusted, hlink]
      exact htime ⟨_, route.nextHop⟩ hhop
    | some link =>
      simp only [Dv.adjusted, hlink]
      have hd : (links.get? d).isSome := by rw [hlink]; rfl
      by_cases hcheap : link.cost < if route.nextHop = id then route.cost + difference else route.cost
      · rw [if_pos hcheap]
        exact htime ⟨link.cost, d⟩ hd
      · rw [if_neg hcheap]
        exact htime ⟨_, route.nextHop⟩ hhop

/-- After neighbours are gone, `earseDV` with all of them makes every entry good again. -/
theorem GoodEntry.earsed {before : NeighborTable} (h : GoodEntry before routerId d entry)
    {toEarse : List UInt16} (hsub : ∀ n, (links.get? n).isSome → (before.get? n).isSome)
    (hgone : ∀ n, (before.get? n).isSome → n ∉ toEarse → (links.get? n).isSome) :
    GoodEntry links routerId d (earsed env toEarse links d entry) := by
  obtain ⟨_ | route, time⟩ := entry
  · exact ⟨h.deadline, fun hd => h.neighbor (hsub d hd), h.no_self, fun _ heq => by cases heq⟩
  · simp only [Dv.earsed]
    split
    · exact .fallback fun hd => h.neighbor_ne_self (hsub d hd)
    · rename_i hkept
      exact ⟨h.deadline, fun hd => h.neighbor (hsub d hd), h.no_self,
        fun _ heq => Option.some.inj heq ▸ hgone _ (h.hop route rfl) hkept⟩

end Entry

variable {attached : UInt16 → UInt16} {r r' : Router}

theorem TablesMatch.init (numPorts routerId : UInt16) (protocolType : ProtocolType) :
    TablesMatch (Router.init numPorts routerId protocolType) := by
  intro d
  exact ⟨rfl, by simp [Router.init], fun _ => rfl, by simp [entryAt, Router.init]⟩

theorem TablesMatch.of_entries (hkeeps : KeepsLinks r r')
    (h : ∀ d, GoodEntry r.neighborTable r.routerId d (entryAt r' d)) : TablesMatch r' := by
  unfold TablesMatch
  rw [hkeeps.neighborTable, hkeeps.routerId]
  exact h

/-- `update` repairs the entry of a router that has just become a neighbour. -/
theorem TablesMatch.update {env : Env} {id rtt oldRTT : UInt16}
    (hothers : ∀ d, d ≠ id → GoodEntry r.neighborTable r.routerId d (entryAt r d))
    (hdeadline : (r.dvTime.get? id).isSome = (r.routingTable.get? id).isSome)
    (hhop : ∀ route, r.routingTable.get? id = some route → (r.neighborTable.get? route.nextHop).isSome)
    (hlink : (r.neighborTable.get? id).isSome) (hself : id ≠ r.routerId) :
    TablesMatch (update env id rtt oldRTT r) := by
  have hdirect (d : UInt16) : GoodEntry r.neighborTable r.routerId d
      (if d = id then (some ⟨rtt, id⟩, some (renewed env)) else entryAt r d) := by
    by_cases hd : d = id
    · rw [if_pos hd]
      exact .of_hop (hd ▸ hself) hlink
    · rw [if_neg hd]
      exact hothers d hd
  cases hroute : r.routingTable.get? id with
  | none =>
    rw [update_of_no_route env id rtt oldRTT r hroute]
    refine .of_entries rfl fun d => ?_
    rw [entryAt_setDirect]
    exact hdirect d
  | some route =>
    by_cases htakes : takesOver id rtt route
    · obtain ⟨hkeeps, heffect⟩ := update_effect env id rtt oldRTT r route hroute htakes
      refine .of_entries hkeeps fun d => ?_
      rw [heffect d]
      exact (hdirect d).adjusted
    · rw [update_of_kept env id rtt oldRTT r route hroute htakes]
      intro d
      by_cases hd : d = id
      · subst hd
        exact ⟨hdeadline, fun _ => by simp [entryAt, hroute], fun h => absurd h hself, hhop⟩
      · exact hothers d hd

theorem TablesMatch.routed_of_known (h : TablesMatch r) (hports : PortsMatch attached r) {port : UInt16}
    (hknown : r.portTable.contains port) : (r.routingTable.get? (attached port)).isSome := by
  obtain ⟨n, hn⟩ := Option.isSome_iff_exists.mp hknown
  obtain ⟨_, rfl, link, hlink, _⟩ := hports.known port n hn
  exact (h _).neighbor (by simp [hlink])

theorem notePong_routingTable (env : Env) (port rtt : UInt16) (h : TablesMatch r)
    (hports : PortsMatch attached r) :
    (notePong env port (attached port) rtt r).1.routingTable = r.routingTable := by
  by_cases hknown : r.portTable.contains port
  · obtain ⟨link, _, _, heq⟩ := notePong_of_known env port rtt hports hknown
    obtain ⟨route, hroute⟩ := Option.isSome_iff_exists.mp (h.routed_of_known hports hknown)
    rw [heq, Table.index_of_get? _ hroute]
  · rw [notePong_of_new env port rtt hknown]

/-- What a pong leaves to `update`: every entry is good except that the far end may lack a route. -/
theorem TablesMatch.notePong (env : Env) (port rtt : UInt16) (h : TablesMatch r)
    (hports : PortsMatch attached r) :
    let r' := (notePong env port (attached port) rtt r).1
    (∀ d, d ≠ attached port → GoodEntry r'.neighborTable r'.routerId d (entryAt r' d)) ∧
      (∀ d, entryAt r' d = entryAt r d) ∧
      ∀ n, (r.neighborTable.get? n).isSome ∨ n = attached port → (r'.neighborTable.get? n).isSome := by
  obtain ⟨hlinks, _, _, hid, _, htime⟩ := notePong_tables env port rtt hports
  have hroutes := notePong_routingTable env port rtt h hports
  have hentry (d : UInt16) : entryAt (Router.notePong env port (attached port) rtt r).1 d = entryAt r d := by
    rw [entryAt, hroutes, htime, entryAt]
  have hgrow (n : UInt16) (hn : (r.neighborTable.get? n).isSome ∨ n = attached port) :
      ((Router.notePong env port (attached port) rtt r).1.neighborTable.get? n).isSome := by
    rw [hlinks]
    split
    · rfl
    · rename_i hne
      exact hn.resolve_right hne
  refine ⟨fun d hd => ?_, hentry, hgrow⟩
  rw [hentry, hid]
  have hsame := hlinks d
  rw [if_neg hd] at hsame
  exact ⟨(h d).deadline, fun hn => (h d).neighbor (hsame ▸ hn), (h d).no_self,
    fun route hroute => hgrow _ (.inl ((h d).hop route hroute))⟩

private theorem notePong_protocolType (env : Env) (port id rtt : UInt16) (r : Router) :
    (notePong env port id rtt r).1.protocolType = r.protocolType := by
  unfold Router.notePong
  split <;> rfl

theorem recvPong_dv (env : Env) (port : UInt16) (msg : Memory) (r : Router)
    (hmode : r.protocolType = .dv) :
    let noted := notePong env port (ntohs (msg.load16 4)) (roundTripTime env msg) r
    let updated := update env (ntohs (msg.load16 4)) (roundTripTime env msg) noted.2.1 noted.1
    recvPong env port msg r =
      if r.routerId = ntohs (msg.load16 6) then
        if noted.2.2 then (updated, send env updated) else (noted.1, [])
      else (r, []) := by
  simp only [Router.recvPong, notePong_protocolType, hmode]

theorem TablesMatch.recvPong (h : TablesMatch r) (env : Env) {port : UInt16} {msg : Memory}
    (hports : PortsMatch attached r) (ha : Attached attached r.numPorts r.routerId)
    (hport : port < r.numPorts) (hsource : ntohs (msg.load16 4) = attached port)
    (hmode : r.protocolType = .dv) : TablesMatch (recvPong env port msg r).1 := by
  obtain ⟨hothers, hentry, hgrow⟩ := h.notePong env port (roundTripTime env msg) hports
  obtain ⟨_, _, _, hid, _⟩ := notePong_tables env port (roundTripTime env msg) hports
  have hself := ha.ne_self port hport
  rw [recvPong_dv env port msg r hmode, hsource]
  have hroute (route : Route)
      (hr : (Router.notePong env port (attached port) (roundTripTime env msg) r).1.routingTable.get?
        (attached port) = some route) :=
    hgrow _ (.inl ((h (attached port)).hop route ((congrArg Prod.fst (hentry (attached port))).symm.trans hr)))
  have hdeadline := (h (attached port)).deadline
  rw [← hentry] at hdeadline
  split
  · split
    · exact .update hothers hdeadline hroute (hgrow _ (.inr rfl)) (hid ▸ hself)
    · rename_i hsame
      intro d
      by_cases hd : d = attached port
      · subst hd
        have hknown : r.portTable.contains port := by
          by_contra hnew
          simp [notePong_of_new env port (roundTripTime env msg) hnew] at hsame
        have hrouted := h.routed_of_known hports hknown
        refine ⟨hdeadline, fun _ => ?_, fun heq => absurd heq (hid ▸ hself), hroute⟩
        rw [hentry]
        exact hrouted
      · exact hothers d hd
  · exact h

/-- Effect of `update_timeout` in DV mode: expired neighbours leave, then `earseDV` and `refresh` work on
each destination with the neighbours that are left. -/
theorem updateTimeout_effect (env : Env) (r : Router) (hmode : r.protocolType = .dv)
    (hdeadlines : ∀ d, (r.dvTime.get? d).isSome → (r.routingTable.get? d).isSome) :
    ∃ r' calls, updateTimeout env r = some (r', calls) ∧ KeepsLinks (dropExpired env r) r' ∧
      ∀ d, entryAt r' d = refreshed env (dropExpired env r).neighborTable d
        (earsed env ((expired env r.neighborTable).map Prod.fst) (dropExpired env r).neighborTable d
          (entryAt r d)) := by
  let toEarse := (expired env r.neighborTable).map Prod.fst
  let r₁ := dropExpired env r
  let r₂ := if decide (toEarse ≠ []) then earseDV env toEarse r₁ else r₁
  have hr₁ : r₁ = { r with neighborTable := r₁.neighborTable, portTable := r₁.portTable } :=
    dropExpired_keeps env r
  have hentry (d : UInt16) : entryAt r₁ d = entryAt r d := by rw [hr₁]; rfl
  have hr₂ : KeepsLinks r₁ r₂ ∧
      ∀ d, entryAt r₂ d = earsed env toEarse r₁.neighborTable d (entryAt r d) := by
    dsimp only [r₂]
    split
    · obtain ⟨hkeeps, heffect⟩ := earseDV_effect env toEarse r₁
      exact ⟨hkeeps, fun d => by rw [heffect d, hentry]⟩
    · rename_i hnone
      have hempty : toEarse = [] := by simpa using hnone
      refine ⟨.refl r₁, fun d => ?_⟩
      rw [hentry, hempty]
      cases hroute : r.routingTable.get? d <;> simp [entryAt, hroute, earsed]
  have hready (d : UInt16) : (r₂.dvTime.get? d).isSome → (r₂.routingTable.get? d).isSome := by
    have heffect := hr₂.2 d
    rcases earsed_cases env toEarse r₁.neighborTable d (entryAt r d) with hlost | hkept
    · have hmatched := fallback_isSome env r₁.neighborTable d
      rw [← heffect.trans hlost] at hmatched
      exact fun htime => hmatched.symm.trans htime
    · have hbefore := hdeadlines d
      rwa [← entryAt_route (heffect.trans hkept), ← entryAt_time (heffect.trans hkept)] at hbefore
  obtain ⟨r₃, calls, hrun, hkeeps, heffect⟩ := refresh_effect env r₂ hready
  refine ⟨r₃, calls, ?_, hr₂.1.trans hkeeps, fun d => ?_⟩
  · have hmode₁ : r₁.protocolType = .dv := by rw [hr₁]; exact hmode
    exact (updateTimeout_dv env hmode₁).trans hrun
  · rw [heffect d, hr₂.2 d, hr₂.1.neighborTable]

theorem TablesMatch.updateTimeout (h : TablesMatch r) (env : Env)
    (hmode : r.protocolType = .dv) :
    ∃ r' calls, updateTimeout env r = some (r', calls) ∧ KeepsLinks (dropExpired env r) r' ∧
      TablesMatch r' := by
  have hlinks := dropExpired_neighborTable env r
  have hid : (dropExpired env r).routerId = r.routerId := by rw [dropExpired_keeps]
  have hsub (n : UInt16) (hn : ((dropExpired env r).neighborTable.get? n).isSome) :
      (r.neighborTable.get? n).isSome := by
    obtain ⟨link, hlink⟩ := Option.isSome_iff_exists.mp hn
    have hkept := (hlinks n).symm.trans hlink
    rw [Option.filter_eq_some_iff] at hkept
    simp [hkept.1]
  have hgone (n : UInt16) (hn : (r.neighborTable.get? n).isSome)
      (hne : n ∉ (expired env r.neighborTable).map Prod.fst) :
      ((dropExpired env r).neighborTable.get? n).isSome := by
    obtain ⟨link, hlink⟩ := Option.isSome_iff_exists.mp hn
    have halive : alive env link = true := by
      by_contra hdead
      exact hne ((mem_expired_keys env r.neighborTable n).mpr ⟨link, hlink, by simpa using hdead⟩)
    rw [hlinks n, hlink]
    simp [Option.filter, halive]
  obtain ⟨r', calls, hrun, hkeeps, heffect⟩ := updateTimeout_effect env r hmode fun d hd =>
    (h d).deadline ▸ hd
  refine ⟨r', calls, hrun, hkeeps, .of_entries hkeeps fun d => ?_⟩
  rw [heffect d, hid]
  exact ((h d).earsed hsub hgone).refreshed

/-- The invariant of a router in DV mode. -/
structure DvInv (attached : UInt16 → UInt16) (numPorts routerId : UInt16) (r : Router) : Prop where
  numPorts : r.numPorts = numPorts
  routerId : r.routerId = routerId
  mode : r.protocolType = .dv
  ports : PortsMatch attached r
  tables : TablesMatch r

variable {numPorts routerId : UInt16}

theorem DvInv.init (attached : UInt16 → UInt16) (numPorts routerId : UInt16) :
    DvInv attached numPorts routerId (Router.init numPorts routerId .dv) :=
  ⟨rfl, rfl, rfl, .init .., .init _ _ _⟩

private theorem PortsMatch.of_keepsLinks (h : PortsMatch attached r) (hkeeps : KeepsLinks r r') :
    PortsMatch attached r' := by
  constructor
  · rw [hkeeps.portTable, hkeeps.neighborTable, hkeeps.numPorts]
    exact h.known
  · rw [hkeeps.portTable, hkeeps.neighborTable]
    exact h.linked

private theorem DvInv.of_keepsLinks (h : DvInv attached numPorts routerId r) (hkeeps : KeepsLinks r r')
    (htables : TablesMatch r') : DvInv attached numPorts routerId r' :=
  ⟨hkeeps.numPorts.trans h.numPorts, hkeeps.routerId.trans h.routerId,
    hkeeps.protocolType.trans h.mode, PortsMatch.of_keepsLinks h.ports hkeeps, htables⟩

theorem DvInv.recvPong (h : DvInv attached numPorts routerId r)
    (ha : Attached attached numPorts routerId) (env : Env) {port : UInt16} {packet : Packet}
    (hfrom : FromAttached attached numPorts port packet) :
    DvInv attached numPorts routerId (recvPong env port packet.block.memory r).1 := by
  obtain ⟨hport, hsource⟩ := hfrom
  obtain rfl := h.numPorts
  obtain rfl := h.routerId
  have htables := h.tables.recvPong env h.ports ha hport hsource h.mode
  let rtt := roundTripTime env packet.block.memory
  have hports := h.ports.notePong env port rtt ha hport
  obtain ⟨_, _, hnum, hid, hmode, _⟩ := notePong_tables env port rtt h.ports
  rw [recvPong_dv env port _ r h.mode, hsource] at htables ⊢
  split at htables
  · rename_i hdest
    rw [if_pos hdest]
    split at htables
    · rename_i hchanged
      rw [if_pos hchanged]
      have hkeeps := update_keepsLinks env (attached port) rtt
        (Router.notePong env port (attached port) rtt r).2.1
        (Router.notePong env port (attached port) rtt r).1
      exact ⟨hkeeps.numPorts.trans hnum, hkeeps.routerId.trans hid,
        hkeeps.protocolType.trans (hmode.trans h.mode), PortsMatch.of_keepsLinks hports hkeeps, htables⟩
    · rename_i hchanged
      rw [if_neg hchanged]
      exact ⟨hnum, hid, hmode.trans h.mode, hports, htables⟩
  · rename_i hdest
    rw [if_neg hdest]
    exact h

theorem DvInv.sender (h : DvInv attached numPorts routerId r) (ha : Attached attached numPorts routerId)
    {port : UInt16} {packet : Packet} (hfrom : FromAttached attached numPorts port packet) {link : Link}
    (hlink : r.neighborTable.get? (ntohs (packet.block.memory.load16 4)) = some link) :
    r.portTable.get? port = some (ntohs (packet.block.memory.load16 4)) := by
  obtain rfl := h.numPorts
  obtain rfl := h.routerId
  rw [hfrom.2] at hlink ⊢
  exact (h.ports.port_of_neighbor ha hfrom.1 hlink).2

theorem DvInv.recv (h : DvInv attached numPorts routerId r) (ha : Attached attached numPorts routerId)
    (env : Env) {port : UInt16} {packet : Packet} (hfrom : FromAttached attached numPorts port packet) :
    ∃ r' calls, recv env port packet.block.memory packet.size r = some (r', calls) ∧
      DvInv attached numPorts routerId r' := by
  cases hlink : r.neighborTable.get? (ntohs (packet.block.memory.load16 4)) with
  | none => exact ⟨r, [], recv_of_not_neighbor env port _ _ r hlink, h⟩
  | some link =>
    obtain ⟨r', calls, hrun, hkeeps, heffect⟩ := recv_effect env port packet.block.memory packet.size r
      link (h.sender ha hfrom hlink) hlink
    refine ⟨r', calls, hrun, h.of_keepsLinks hkeeps (.of_entries hkeeps fun d => ?_)⟩
    rw [heffect d]
    exact (h.tables d).received (by simp [hlink]) _

theorem DvInv.updateTimeout (h : DvInv attached numPorts routerId r) (env : Env) :
    ∃ r' calls, updateTimeout env r = some (r', calls) ∧ DvInv attached numPorts routerId r' := by
  obtain ⟨r', calls, hrun, hkeeps, htables⟩ := h.tables.updateTimeout env h.mode
  have hdropped := dropExpired_keeps env r
  have hnum : (dropExpired env r).numPorts = r.numPorts := by rw [hdropped]
  have hid : (dropExpired env r).routerId = r.routerId := by rw [hdropped]
  have hmode : (dropExpired env r).protocolType = r.protocolType := by rw [hdropped]
  exact ⟨r', calls, hrun, hkeeps.numPorts.trans (hnum.trans h.numPorts),
    hkeeps.routerId.trans (hid.trans h.routerId), hkeeps.protocolType.trans (hmode.trans h.mode),
    PortsMatch.of_keepsLinks (h.ports.dropExpired env) hkeeps, htables⟩

/-- Every event of DV mode is handled, without dereferencing the end of a table, and keeps the
invariant. -/
theorem DvInv.handle (h : DvInv attached numPorts routerId r) (ha : Attached attached numPorts routerId)
    (env : Env) {event : Event} (hevent : DvEvent attached numPorts event) :
    ∃ r' calls, handle env r event = some (r', calls) ∧ DvInv attached numPorts routerId r' := by
  cases event with
  | packet port packet =>
    simp only [DvEvent] at hevent
    simp only [Router.handle, Router.recv]
    cases htype : PacketType.ofCode (packet.block.memory 0) with
    | none => exact ⟨_, _, rfl, h⟩
    | some type =>
      rw [htype] at hevent
      cases type with
      | data => exact ⟨_, _, rfl, h⟩
      | ping => exact ⟨_, _, rfl, h⟩
      | pong => exact ⟨_, _, rfl, h.recvPong ha env hevent⟩
      | dv => exact h.recv ha env hevent
      | ls => exact hevent.elim
  | alarm alarm =>
    cases alarm with
    | ping => exact ⟨_, _, rfl, h⟩
    | dv => exact ⟨_, _, rfl, h⟩
    | ls => exact absurd rfl hevent
    | port =>
      obtain ⟨r', calls, hrun, hinv⟩ := h.updateTimeout env
      exact ⟨r', _, by rw [Router.handle, Router.handleAlarm, hrun]; rfl, hinv⟩

theorem DvInv.run (ha : Attached attached numPorts routerId)
    (hrun : DvReachable attached numPorts routerId r) :
    DvInv attached numPorts routerId r := by
  apply run_invariant _ hrun (.init attached numPorts routerId)
  rintro s s' h ⟨env, event, calls, hevent, hhandle⟩
  obtain ⟨s'', calls', hhandle', hinv⟩ := h.handle ha env hevent
  obtain ⟨rfl, -⟩ := Prod.mk.inj (Option.some.inj (hhandle.symm.trans hhandle'))
  exact hinv

end Dv

end Comp556
