import Comp556.Routing.DistanceVector

/-!
# What the distance-vector handlers do to each destination

Every handler of `DVProImp` only writes the route and the deadline of single destinations. Its
effect is stated here destination by destination; the later results never look into a loop again.
-/

namespace Comp556.Dv

/-- What a router records about a destination: its route and its deadline. -/
def entryAt (r : Router) (d : UInt16) : Option Route × Option UInt32 :=
  (r.routingTable.get? d, r.dvTime.get? d)

/-- The two routers differ at most in routes, deadlines and the change flag. -/
def KeepsLinks (r r' : Router) : Prop :=
  r' = { r with
    routingTable := r'.routingTable
    dvTime := r'.dvTime
    isUpdated := r'.isUpdated }

namespace KeepsLinks

variable {r r' r'' : Router}

theorem refl (r : Router) : KeepsLinks r r := rfl

theorem routerId (h : KeepsLinks r r') : r'.routerId = r.routerId := by rw [h]

theorem numPorts (h : KeepsLinks r r') : r'.numPorts = r.numPorts := by rw [h]

theorem protocolType (h : KeepsLinks r r') : r'.protocolType = r.protocolType := by rw [h]

theorem neighborTable (h : KeepsLinks r r') : r'.neighborTable = r.neighborTable := by rw [h]

theorem portTable (h : KeepsLinks r r') : r'.portTable = r.portTable := by rw [h]

theorem trans (h : KeepsLinks r r') (h' : KeepsLinks r' r'') : KeepsLinks r r'' := by
  unfold KeepsLinks at *
  rw [h'] at *
  rw [h]

end KeepsLinks

theorem entryAt_route {r : Router} {d : UInt16} {route : Option Route} {time : Option UInt32}
    (h : entryAt r d = (route, time)) : r.routingTable.get? d = route :=
  congrArg Prod.fst h

theorem entryAt_time {r : Router} {d : UInt16} {route : Option Route} {time : Option UInt32}
    (h : entryAt r d = (route, time)) : r.dvTime.get? d = time :=
  congrArg Prod.snd h

theorem entryAt_setDirect (env : Env) (id cost : UInt16) (r : Router) (d : UInt16) :
    entryAt (setDirect env id cost r) d =
      if d = id then (some ⟨cost, id⟩, some (renewed env)) else entryAt r d := by
  simp only [entryAt, setDirect, Table.get?_insert]
  by_cases h : d = id <;> simp [h]

private theorem entryAt_dropRoute (id : UInt16) (r : Router) (d : UInt16) :
    entryAt (dropRoute id r) d = if d = id then (none, none) else entryAt r d := by
  simp only [entryAt, dropRoute, Table.get?_erase]
  by_cases h : d = id <;> simp [h]

private theorem entryAt_learnRoute (env : Env) (sourceId dest totalCost : UInt16) (r : Router) (d : UInt16) :
    entryAt (learnRoute env sourceId dest totalCost r) d =
      if d = dest then (some ⟨totalCost, sourceId⟩, some (renewed env)) else entryAt r d := by
  simp only [entryAt, learnRoute, Table.get?_insert]
  by_cases h : d = dest <;> simp [h]

/-- Of what the router records, only the record of `d` changes, and it becomes `entry`. -/
structure SetsEntry (d : UInt16) (entry : Option Route × Option UInt32) (r r' : Router) : Prop where
  keeps : KeepsLinks r r'
  self : entryAt r' d = entry
  other : ∀ j, j ≠ d → entryAt r' j = entryAt r j

namespace SetsEntry

variable {d : UInt16} {entry entry' : Option Route × Option UInt32} {r r' r'' : Router}

theorem refl (r : Router) (d : UInt16) : SetsEntry d (entryAt r d) r r := ⟨.refl r, rfl, fun _ _ => rfl⟩

theorem trans (h : SetsEntry d entry r r') (h' : SetsEntry d entry' r' r'') : SetsEntry d entry' r r'' where
  keeps := h.keeps.trans h'.keeps
  self := h'.self
  other j hj := (h'.other j hj).trans (h.other j hj)

theorem of_entries (hkeeps : KeepsLinks r r')
    (h : ∀ j, entryAt r' j = if j = d then entry else entryAt r j) : SetsEntry d entry r r' where
  keeps := hkeeps
  self := (h d).trans (if_pos rfl)
  other j hj := (h j).trans (if_neg hj)

theorem announced (h : SetsEntry d entry r r') (isUpdated : Bool) :
    SetsEntry d entry r { r' with isUpdated := isUpdated } where
  keeps := h.keeps.trans rfl
  self := h.self
  other := h.other

theorem setDirect (env : Env) (id cost : UInt16) (r : Router) :
    SetsEntry id (some ⟨cost, id⟩, some (renewed env)) r (Dv.setDirect env id cost r) :=
  .of_entries rfl (entryAt_setDirect env id cost r)

theorem dropRoute (id : UInt16) (r : Router) : SetsEntry id (none, none) r (Dv.dropRoute id r) :=
  .of_entries rfl (entryAt_dropRoute id r)

theorem learnRoute (env : Env) (sourceId dest totalCost : UInt16) (r : Router) :
    SetsEntry dest (some ⟨totalCost, sourceId⟩, some (renewed env)) r
      (Dv.learnRoute env sourceId dest totalCost r) :=
  .of_entries rfl (entryAt_learnRoute env sourceId dest totalCost r)

private theorem insertRoute (env : Env) (d : UInt16) (route : Route) (r : Router) :
    SetsEntry d (some route, r.dvTime.get? d) r
      { r with routingTable := r.routingTable.insert env.layout d route } := by
  refine .of_entries rfl fun j => ?_
  by_cases hj : j = d
  · simp [entryAt, hj]
  · simp [entryAt, Table.get?_insert, hj]

private theorem insertTime (env : Env) (d : UInt16) (time : UInt32) (r : Router) :
    SetsEntry d (r.routingTable.get? d, some time) r
      { r with dvTime := r.dvTime.insert env.layout d time } := by
  refine .of_entries rfl fun j => ?_
  by_cases hj : j = d
  · simp [entryAt, hj]
  · simp [entryAt, Table.get?_insert, hj]

end SetsEntry

/-- The entry of a destination after the sender announced a path of `totalCost` to it. -/
def learned (env : Env) (sourceId totalCost : UInt16) :
    Option Route × Option UInt32 → Option Route × Option UInt32
  | (none, _) => (some ⟨totalCost, sourceId⟩, some (renewed env))
  | (some route, time) =>
    if (route.nextHop = sourceId ∧ route.cost ≠ totalCost) ∨ route.cost > totalCost then
      (some ⟨totalCost, sourceId⟩, some (renewed env))
    else if route.nextHop = sourceId then (some route, some (renewed env))
    else (some route, time)

/-- The entry of a destination after the rule for the sender's own route, when the packet lists
this router at cost `back`. -/
def preferred (sourceId back : UInt16) (d : UInt16) :
    Option Route × Option UInt32 → Option Route × Option UInt32
  | (none, time) => (none, time)
  | (some route, time) =>
    if d = sourceId ∧ route.cost > back ∧ route.nextHop ≠ sourceId then (some ⟨back, sourceId⟩, time)
    else (some route, time)

/-- The entry of a destination after `recv` of a packet from `sourceId` over a link of cost `c`,
when the packet lists the destination as `listed`. -/
def received (env : Env) (routerId sourceId c back : UInt16) (listed : Option UInt16) (d : UInt16)
    (entry : Option Route × Option UInt32) : Option Route × Option UInt32 :=
  match listed with
  | none => preferred sourceId back d entry
  | some a =>
    if d = routerId ∨ a = infinityCost then preferred sourceId back d entry
    else learned env sourceId (a + c) (preferred sourceId back d entry)

private theorem preferred_isSome (sourceId back d : UInt16) (entry : Option Route × Option UInt32) :
    (preferred sourceId back d entry).1.isSome = entry.1.isSome := by
  obtain ⟨_ | route, time⟩ := entry
  · rfl
  · simp only [preferred]
    split <;> rfl

private theorem learned_isSome (env : Env) (sourceId totalCost : UInt16)
    (entry : Option Route × Option UInt32) : (learned env sourceId totalCost entry).1.isSome = true := by
  obtain ⟨_ | route, time⟩ := entry
  · rfl
  · simp only [learned]
    split
    · rfl
    · split <;> rfl

theorem received_isSome (env : Env) (routerId sourceId c back : UInt16) (listed : Option UInt16)
    (d : UInt16) (entry : Option Route × Option UInt32) :
    (received env routerId sourceId c back listed d entry).1.isSome ↔
      entry.1.isSome ∨ ∃ a, listed = some a ∧ d ≠ routerId ∧ a ≠ infinityCost := by
  cases listed with
  | none => simp [received, preferred_isSome]
  | some a =>
    simp only [received]
    split
    case isTrue hskipped =>
      rw [preferred_isSome]
      simp only [Option.some.injEq, exists_eq_left']
      exact (or_iff_left fun h => hskipped.elim h.1 h.2).symm
    case isFalse htaken => simp [learned_isSome, not_or.mp htaken]

private theorem preferred_of_ne {sourceId d : UInt16} (h : d ≠ sourceId) (back : UInt16)
    (entry : Option Route × Option UInt32) : preferred sourceId back d entry = entry := by
  obtain ⟨_ | route, time⟩ := entry
  · rfl
  · exact if_neg fun hd => h hd.1

private theorem preferSource_sets (env : Env) (sourceId : UInt16) (r : Router) (dvTable : Table UInt16 UInt16) :
    SetsEntry sourceId (preferred sourceId (dvTable.getD r.routerId 0) sourceId (entryAt r sourceId)) r
      (preferSource env sourceId r dvTable).1 := by
  unfold preferSource
  cases hroute : r.routingTable.get? sourceId with
  | none =>
    have hnone : preferred sourceId (dvTable.getD r.routerId 0) sourceId (entryAt r sourceId) =
        entryAt r sourceId := by
      rw [entryAt, hroute, preferred]
    rw [hnone]
    exact .refl r sourceId
  | some route =>
    rw [entryAt, hroute, preferred]
    simp only [Table.index_fst, true_and]
    by_cases hcheap : route.cost > dvTable.getD r.routerId 0 ∧ route.nextHop ≠ sourceId
    · rw [if_pos hcheap, if_pos hcheap]
      exact (SetsEntry.insertRoute env sourceId ⟨dvTable.getD r.routerId 0, sourceId⟩ r).announced false
    · rw [if_neg hcheap, if_neg hcheap, ← hroute]
      exact .refl r sourceId

private theorem preferSource_listed (env : Env) (sourceId : UInt16) (r : Router)
    (dvTable : Table UInt16 UInt16) {d : UInt16} (hd : d ≠ r.routerId) :
    (preferSource env sourceId r dvTable).2.get? d = dvTable.get? d := by
  have hindex : (dvTable.index env.layout r.routerId 0).2.get? d = dvTable.get? d := by
    unfold Table.index
    split
    · rfl
    · exact Table.get?_insert_of_ne _ _ _ hd
  unfold preferSource
  cases r.routingTable.get? sourceId with
  | none => rfl
  | some route =>
    dsimp only
    split
    · exact hindex
    · exact hindex

private theorem preferSource_effect (env : Env) (sourceId : UInt16) (r : Router)
    (dvTable : Table UInt16 UInt16) (d : UInt16) :
    entryAt (preferSource env sourceId r dvTable).1 d =
      preferred sourceId (dvTable.getD r.routerId 0) d (entryAt r d) := by
  have hsets := preferSource_sets env sourceId r dvTable
  by_cases hd : d = sourceId
  · rw [hd, hsets.self]
  · rw [hsets.other d hd, preferred_of_ne hd]

/-- A route of the sender at the announced cost only gets a new deadline; any other that is no better
is left, or taken for the sender's. -/
private theorem recvEntry_known (env : Env) (sourceId d totalCost : UInt16) (r : Router) (route : Route)
    (hroute : r.routingTable.get? d = some route) :
    let timed : Router :=
      if route.nextHop = sourceId ∧ route.cost = totalCost then
        { r with dvTime := r.dvTime.insert env.layout d (renewed env) }
      else r
    SetsEntry d (learned env sourceId totalCost (entryAt r d)) r
      (if (route.nextHop = sourceId ∧ route.cost ≠ totalCost) ∨ route.cost > totalCost then
        learnRoute env sourceId d totalCost timed
      else timed) := by
  intro timed
  have htimed : SetsEntry d (some route, timed.dvTime.get? d) r timed := by
    dsimp only [timed]
    split
    · rw [← hroute, Table.get?_insert_self]
      exact .insertTime env d (renewed env) r
    · rw [← hroute]
      exact .refl r d
  rw [entryAt, hroute, learned]
  by_cases hbetter : (route.nextHop = sourceId ∧ route.cost ≠ totalCost) ∨ route.cost > totalCost
  · rw [if_pos hbetter, if_pos hbetter]
    exact htimed.trans (.learnRoute env sourceId d totalCost timed)
  · rw [if_neg hbetter, if_neg hbetter]
    by_cases hhop : route.nextHop = sourceId
    · have hcost : route.cost = totalCost := by
        by_contra hne
        exact hbetter (.inl ⟨hhop, hne⟩)
      have htime : timed.dvTime.get? d = some (renewed env) := by
        dsimp only [timed]
        rw [if_pos ⟨hhop, hcost⟩, Table.get?_insert_self]
      rw [if_pos hhop, ← htime]
      exact htimed
    · have hsame : timed = r := if_neg fun h => hhop h.1
      rwa [if_neg hhop, ← congrArg (fun r => r.dvTime.get? d) hsame]

private theorem recvEntry_effect (env : Env) (port sourceId : UInt16) (link : Link) (r : Router)
    (entry : UInt16 × UInt16) (hport : r.portTable.get? port = some sourceId)
    (hlink : r.neighborTable.get? sourceId = some link) :
    ∃ r', recvEntry env port sourceId r entry = some r' ∧
      SetsEntry entry.1 (if entry.1 = r.routerId ∨ entry.2 = infinityCost then entryAt r entry.1
        else learned env sourceId (entry.2 + link.cost) (entryAt r entry.1)) r r' := by
  unfold recvEntry
  by_cases hself : entry.1 = r.routerId
  · rw [if_pos hself, if_pos (.inl hself)]
    exact ⟨r, rfl, .refl r entry.1⟩
  by_cases hinf : entry.2 = infinityCost
  · rw [if_neg hself, if_pos hinf, if_pos (.inr hinf)]
    exact ⟨r, rfl, .refl r entry.1⟩
  rw [if_neg hself, if_neg hinf, if_neg (not_or.mpr ⟨hself, hinf⟩)]
  simp only [Table.index_of_get? 0 hport, hlink]
  cases hroute : r.routingTable.get? entry.1 with
  | none =>
    refine ⟨_, rfl, ?_⟩
    rw [entryAt, hroute, learned]
    exact .learnRoute env sourceId entry.1 (entry.2 + link.cost) r
  | some route =>
    have hknown := recvEntry_known env sourceId entry.1 (entry.2 + link.cost) r route hroute
    refine ⟨_, ?_, hknown⟩
    exact (apply_ite some _ _ _).symm

private theorem announce_keepsLinks (env : Env) (r : Router) : KeepsLinks r (announce env r).1 := by
  unfold announce
  split <;> rfl

private theorem entryAt_announce (env : Env) (r : Router) (d : UInt16) :
    entryAt (announce env r).1 d = entryAt r d := by
  unfold announce
  split <;> rfl

/-- Effect of `recv` on a packet that arrives at the port where its sender is a neighbour. -/
theorem recv_effect (env : Env) (port : UInt16) (msg : Memory) (size : UInt16) (r : Router)
    (link : Link) (hport : r.portTable.get? port = some (ntohs (msg.load16 4)))
    (hlink : r.neighborTable.get? (ntohs (msg.load16 4)) = some link) :
    ∃ r' calls, recv env port msg size r = some (r', calls) ∧ KeepsLinks r r' ∧
      ∀ d, entryAt r' d =
        received env r.routerId (ntohs (msg.load16 4)) link.cost
          ((readTable env msg size).getD r.routerId 0) ((readTable env msg size).get? d) d
          (entryAt r d) := by
  let sourceId := ntohs (msg.load16 4)
  let first := preferSource env sourceId r (readTable env msg size)
  have hfirst : KeepsLinks r first.1 := (preferSource_sets env sourceId r (readTable env msg size)).keeps
  obtain ⟨r', hrun, hkeeps, hloop⟩ := foldlM_pointwise (recvEntry env port sourceId) entryAt
    (fun d a => if d = r.routerId ∨ a = infinityCost then entryAt first.1 d
      else learned env sourceId (a + link.cost) (entryAt first.1 d))
    (KeepsLinks r) first.2 first.1 hfirst (by
      intro s d a _ hs hsame
      obtain ⟨s', hs', hset⟩ := recvEntry_effect env port sourceId link s (d, a)
        (by rw [hs.portTable]; exact hport) (by rw [hs.neighborTable]; exact hlink)
      rw [hs.routerId, hsame] at hset
      exact ⟨s', hs', hs.trans hset.keeps, hset.self, hset.other⟩)
  refine ⟨(announce env r').1, (announce env r').2, ?_,
    hkeeps.trans (announce_keepsLinks env r'), fun d => ?_⟩
  · have hcontains : r.neighborTable.contains (ntohs (msg.load16 4)) := by
      rw [Table.contains_eq, hlink]
      rfl
    have hrun' : first.2.entries.foldlM (recvEntry env port sourceId) first.1 = some r' := hrun
    simp only [recv, if_pos hcontains]
    change (first.2.entries.foldlM (recvEntry env port sourceId) first.1).map (announce env) = _
    rw [hrun']
    rfl
  · have hd : entryAt first.1 d = preferred (ntohs (msg.load16 4))
        ((readTable env msg size).getD r.routerId 0) d (entryAt r d) := preferSource_effect ..
    rw [entryAt_announce, hloop d]
    unfold received
    rw [← hd]
    by_cases hself : d = r.routerId
    · cases first.2.get? d <;> cases (readTable env msg size).get? d <;> simp [hself]
    · have hl : first.2.get? d = (readTable env msg size).get? d := preferSource_listed env sourceId r _ hself
      rw [hl]
      cases (readTable env msg size).get? d <;> simp [hself, sourceId]

theorem recv_of_not_neighbor (env : Env) (port : UInt16) (msg : Memory) (size : UInt16) (r : Router)
    (h : r.neighborTable.get? (ntohs (msg.load16 4)) = none) :
    recv env port msg size r = some (r, []) := by
  simp [recv, Table.contains_eq, h]

/-- The entry of a destination after the loop of `update` for the link to `id`. -/
def adjusted (env : Env) (id difference : UInt16) (links : NeighborTable) (d : UInt16) :
    Option Route × Option UInt32 → Option Route × Option UInt32
  | (none, time) => (none, time)
  | (some route, time) =>
    let cost := if route.nextHop = id then route.cost + difference else route.cost
    let time := if route.nextHop = id then some (renewed env) else time
    match links.get? d with
    | none => (some ⟨cost, route.nextHop⟩, time)
    | some link =>
      if link.cost < cost then (some ⟨link.cost, d⟩, time) else (some ⟨cost, route.nextHop⟩, time)

theorem adjusted_isSome (env : Env) (id difference : UInt16) (links : NeighborTable) (d : UInt16)
    (entry : Option Route × Option UInt32) :
    (adjusted env id difference links d entry).1.isSome = entry.1.isSome := by
  obtain ⟨_ | route, time⟩ := entry
  · rfl
  · cases hlink : links.get? d with
    | none => simp only [adjusted, hlink, Option.isSome_some]
    | some link =>
      simp only [adjusted, hlink]
      generalize (if route.nextHop = id then route.cost + difference else route.cost) = cost
      by_cases hcheap : link.cost < cost <;> simp [hcheap]

/-- The second half of a turn: a cheaper link to `d` takes the place of its route. -/
private theorem preferLink_effect (env : Env) (r : Router) {d : UInt16} {route : Route}
    {time : Option UInt32} (hentry : entryAt r d = (some route, time)) :
    SetsEntry d
      (match r.neighborTable.get? d with
        | none => (some route, time)
        | some link => if link.cost < route.cost then (some ⟨link.cost, d⟩, time) else (some route, time)) r
      (match r.neighborTable.get? d with
        | none => r
        | some link =>
          if link.cost < (r.routingTable.getD d ⟨0, 0⟩).cost then
            { r with routingTable := r.routingTable.insert env.layout d ⟨link.cost, d⟩ }
          else r) := by
  have hroute := Table.getD_of_get? ⟨0, 0⟩ (entryAt_route hentry)
  cases r.neighborTable.get? d with
  | none => exact hentry ▸ .refl r d
  | some link =>
    dsimp only
    rw [hroute]
    by_cases hcost : link.cost < route.cost
    · rw [if_pos hcost, if_pos hcost, ← entryAt_time hentry]
      exact .insertRoute env d ⟨link.cost, d⟩ r
    · rw [if_neg hcost, if_neg hcost]
      exact hentry ▸ .refl r d

private theorem updateEntry_effect (env : Env) (id difference : UInt16) (r : Router) (d : UInt16)
    (route : Route) (hroute : r.routingTable.get? d = some route) :
    SetsEntry d (adjusted env id difference r.neighborTable d (entryAt r d)) r
      (updateEntry env id difference r (d, route)) := by
  by_cases hhop : route.nextHop = id
  · let moved : Router :=
      { r with
        routingTable := r.routingTable.modify env.layout d ⟨0, 0⟩ fun route =>
          { route with cost := route.cost + difference }
        dvTime := r.dvTime.insert env.layout d (renewed env) }
    have hmoved : SetsEntry d (some ⟨route.cost + difference, route.nextHop⟩, some (renewed env)) r moved := by
      refine .of_entries rfl fun j => ?_
      by_cases hj : j = d
      · simp [moved, entryAt, Table.get?_modify, Table.getD_of_get? _ hroute, hj]
      · simp [moved, entryAt, Table.get?_modify, Table.get?_insert, hj]
    have hlinked := hmoved.trans (preferLink_effect env moved hmoved.self)
    simp only [updateEntry, adjusted, entryAt, hroute, if_pos hhop]
    exact hlinked
  · have hlinked := preferLink_effect env r (d := d) (Prod.ext hroute rfl)
    simp only [updateEntry, adjusted, entryAt, hroute, if_neg hhop]
    exact hlinked

private theorem updateLoop_effect (env : Env) (id difference : UInt16) (r : Router) :
    KeepsLinks r (r.routingTable.entries.foldl (updateEntry env id difference) r) ∧
      ∀ d, entryAt (r.routingTable.entries.foldl (updateEntry env id difference) r) d =
        adjusted env id difference r.neighborTable d (entryAt r d) := by
  obtain ⟨hkeeps, hloop⟩ := foldl_pointwise (updateEntry env id difference) entryAt
    (fun d _ => adjusted env id difference r.neighborTable d (entryAt r d)) (KeepsLinks r)
    r.routingTable r (.refl r) (by
      intro s d route hroute hs hsame
      have hget : s.routingTable.get? d = some route := (congrArg Prod.fst hsame).trans hroute
      have hset := updateEntry_effect env id difference s d route hget
      rw [hs.neighborTable, hsame] at hset
      exact ⟨hs.trans hset.keeps, hset.self, hset.other⟩)
  refine ⟨hkeeps, fun d => ?_⟩
  rw [hloop d]
  cases hroute : r.routingTable.get? d with
  | none => simp [entryAt, adjusted, hroute]
  | some route => rfl

/-- The link to `id` takes over its route: `id` was routed directly, or the link is cheaper. -/
def takesOver (id rtt : UInt16) (route : Route) : Prop := route.nextHop = id ∨ rtt < route.cost

instance (id rtt : UInt16) (route : Route) : Decidable (takesOver id rtt route) := by
  unfold takesOver
  infer_instance

theorem update_of_no_route (env : Env) (id rtt oldRTT : UInt16) (r : Router)
    (h : r.routingTable.get? id = none) : update env id rtt oldRTT r = setDirect env id rtt r := by
  simp [update, h]

theorem update_of_kept (env : Env) (id rtt oldRTT : UInt16) (r : Router) (route : Route)
    (h : r.routingTable.get? id = some route) (hkept : ¬ takesOver id rtt route) :
    update env id rtt oldRTT r = r := by
  obtain ⟨hhop, hcost⟩ := not_or.mp hkept
  simp [update, h, hhop, hcost]

private theorem update_of_takesOver (env : Env) (id rtt oldRTT : UInt16) (r : Router) (route : Route)
    (h : r.routingTable.get? id = some route) (htakes : takesOver id rtt route) :
    update env id rtt oldRTT r = (setDirect env id rtt r).routingTable.entries.foldl
      (updateEntry env id (rtt - oldRTT)) (setDirect env id rtt r) := by
  by_cases hhop : route.nextHop = id
  · simp [update, h, hhop]
  · have hcost : rtt < route.cost := htakes.resolve_left hhop
    simp [update, h, hhop, hcost]

/-- Effect of `update` when the link takes over the route to its far end. -/
theorem update_effect (env : Env) (id rtt oldRTT : UInt16) (r : Router) (route : Route)
    (h : r.routingTable.get? id = some route) (htakes : takesOver id rtt route) :
    KeepsLinks r (update env id rtt oldRTT r) ∧
      ∀ d, entryAt (update env id rtt oldRTT r) d =
        adjusted env id (rtt - oldRTT) r.neighborTable d
          (if d = id then (some ⟨rtt, id⟩, some (renewed env)) else entryAt r d) := by
  obtain ⟨hkeeps, hloop⟩ := updateLoop_effect env id (rtt - oldRTT) (setDirect env id rtt r)
  have hdirect : KeepsLinks r (setDirect env id rtt r) := rfl
  rw [update_of_takesOver env id rtt oldRTT r route h htakes]
  refine ⟨hdirect.trans hkeeps, fun d => ?_⟩
  rw [hloop d, entryAt_setDirect]
  rfl

theorem update_keepsLinks (env : Env) (id rtt oldRTT : UInt16) (r : Router) :
    KeepsLinks r (update env id rtt oldRTT r) := by
  cases h : r.routingTable.get? id with
  | none =>
    rw [update_of_no_route env id rtt oldRTT r h]
    rfl
  | some route =>
    by_cases htakes : takesOver id rtt route
    · exact (update_effect env id rtt oldRTT r route h htakes).1
    · rw [update_of_kept env id rtt oldRTT r route h htakes]
      rfl

private theorem updateEntry_isUpdated (env : Env) (id difference : UInt16) (r : Router)
    (rEntry : UInt16 × Route) : (updateEntry env id difference r rEntry).isUpdated = r.isUpdated := by
  unfold updateEntry
  by_cases hhop : rEntry.2.nextHop = id
  · rw [if_pos hhop]
    dsimp only
    split
    · rfl
    · split <;> rfl
  · rw [if_neg hhop]
    dsimp only
    split
    · rfl
    · split <;> rfl

/-- `update` leaves the announcement to its caller. -/
theorem update_isUpdated (env : Env) (id rtt oldRTT : UInt16) (r : Router) :
    (update env id rtt oldRTT r).isUpdated = r.isUpdated := by
  have hloop (l : List (UInt16 × Route)) (s : Router) :
      (l.foldl (updateEntry env id (rtt - oldRTT)) s).isUpdated = s.isUpdated := by
    induction l generalizing s with
    | nil => rfl
    | cons e l ih => exact (ih _).trans (updateEntry_isUpdated ..)
  cases hroute : r.routingTable.get? id with
  | none =>
    rw [update_of_no_route env id rtt oldRTT r hroute]
    rfl
  | some route =>
    by_cases htakes : takesOver id rtt route
    · rw [update_of_takesOver env id rtt oldRTT r route hroute htakes]
      exact hloop _ _
    · rw [update_of_kept env id rtt oldRTT r route hroute htakes]

/-- The entry of a destination that has lost its route: the link to it, if there is one. -/
def fallback (env : Env) (links : NeighborTable) (d : UInt16) : Option Route × Option UInt32 :=
  match links.get? d with
  | some link => (some ⟨link.cost, d⟩, some (renewed env))
  | none => (none, none)

/-- The entry of a destination after `refresh`. -/
def refreshed (env : Env) (links : NeighborTable) (d : UInt16) :
    Option Route × Option UInt32 → Option Route × Option UInt32
  | (some route, some deadline) =>
    let deadline := if d = route.nextHop then renewed env else deadline
    if env.time ≥ deadline then fallback env links d else (some route, some deadline)
  | entry => entry

private theorem fallback_effect (env : Env) (r : Router) (d : UInt16) :
    SetsEntry d (fallback env r.neighborTable d) r (earseEntry env r d) := by
  unfold earseEntry fallback
  cases r.neighborTable.get? d with
  | some link => exact .setDirect env d link.cost r
  | none => exact .dropRoute d r

private theorem refreshEntry_effect (env : Env) (r : Router) (d : UInt16) (route : Route)
    (deadline : UInt32) (hroute : r.routingTable.get? d = some route)
    (htime : r.dvTime.get? d = some deadline) :
    ∃ r', refreshEntry env r (d, deadline) = some r' ∧
      SetsEntry d (refreshed env r.neighborTable d (entryAt r d)) r r' := by
  let timed : Router :=
    if d = route.nextHop then { r with dvTime := r.dvTime.insert env.layout d (renewed env) } else r
  let due := if d = route.nextHop then renewed env else deadline
  have htimed : SetsEntry d (some route, some due) r timed := by
    dsimp only [timed, due]
    split
    · rw [← hroute]
      exact .insertTime env d (renewed env) r
    · rw [← hroute, ← htime]
      exact .refl r d
  have hunfold : refreshEntry env r (d, deadline) =
      if env.time ≥ due then some { earseEntry env timed d with isUpdated := false } else some timed := by
    have hdue : timed.dvTime.getD d 0 = due := Table.getD_of_get? 0 (entryAt_time htimed.self)
    simp only [refreshEntry, hroute]
    change (if env.time ≥ timed.dvTime.getD d 0 then
      (match timed.neighborTable.get? d with
        | some link => some { setDirect env d link.cost timed with isUpdated := false }
        | none => some { dropRoute d timed with isUpdated := false }) else some timed) = _
    rw [hdue, earseEntry]
    cases timed.neighborTable.get? d with
    | none => rfl
    | some link => rfl
  have hgoal : refreshed env r.neighborTable d (entryAt r d) =
      if env.time ≥ due then fallback env r.neighborTable d else (some route, some due) := by
    simp only [entryAt, hroute, htime, refreshed]
    rfl
  rw [hunfold, hgoal]
  by_cases hpassed : env.time ≥ due
  · rw [if_pos hpassed, if_pos hpassed, ← htimed.keeps.neighborTable]
    exact ⟨_, rfl, (htimed.trans (fallback_effect env timed d)).announced false⟩
  · rw [if_neg hpassed, if_neg hpassed]
    exact ⟨timed, rfl, htimed⟩

/-- `refresh` only dereferences routes that exist as long as every deadline belongs to a route. -/
theorem refresh_effect (env : Env) (r : Router)
    (h : ∀ d, (r.dvTime.get? d).isSome → (r.routingTable.get? d).isSome) :
    ∃ r' calls, refresh env r = some (r', calls) ∧ KeepsLinks r r' ∧
      ∀ d, entryAt r' d = refreshed env r.neighborTable d (entryAt r d) := by
  obtain ⟨r', hrun, hkeeps, hloop⟩ := foldlM_pointwise (refreshEntry env) entryAt
    (fun d _ => refreshed env r.neighborTable d (entryAt r d)) (KeepsLinks r) r.dvTime r (.refl r) (by
      intro s d deadline htime hs hsame
      obtain ⟨route, hroute⟩ := Option.isSome_iff_exists.mp (h d (by simp [htime]))
      obtain ⟨s', hs', hset⟩ := refreshEntry_effect env s d route deadline
        ((congrArg Prod.fst hsame).trans hroute) ((congrArg Prod.snd hsame).trans htime)
      rw [hs.neighborTable, hsame] at hset
      exact ⟨s', hs', hs.trans hset.keeps, hset.self, hset.other⟩)
  refine ⟨(announce env r').1, (announce env r').2, by rw [refresh, hrun]; rfl,
    hkeeps.trans (announce_keepsLinks env r'), fun d => ?_⟩
  rw [entryAt_announce, hloop d]
  cases htime : r.dvTime.get? d with
  | none => cases hroute : r.routingTable.get? d <;> simp [entryAt, refreshed, htime, hroute]
  | some deadline => rfl

/-- The entry of a destination after `earseDV`. -/
def earsed (env : Env) (toEarse : List UInt16) (links : NeighborTable) (d : UInt16) :
    Option Route × Option UInt32 → Option Route × Option UInt32
  | (none, time) => (none, time)
  | (some route, time) => if route.nextHop ∈ toEarse then fallback env links d else (some route, time)

theorem fallback_isSome (env : Env) (links : NeighborTable) (d : UInt16) :
    (fallback env links d).2.isSome = (fallback env links d).1.isSome := by
  unfold fallback
  cases links.get? d with
  | none => rfl
  | some link => rfl

theorem earsed_cases (env : Env) (toEarse : List UInt16) (links : NeighborTable) (d : UInt16)
    (entry : Option Route × Option UInt32) :
    earsed env toEarse links d entry = fallback env links d ∨ earsed env toEarse links d entry = entry := by
  obtain ⟨_ | route, time⟩ := entry
  · exact .inr rfl
  · by_cases hdead : route.nextHop ∈ toEarse
    · exact .inl (if_pos hdead)
    · exact .inr (if_neg hdead)

/-- Effect of `earseDV`. -/
theorem earseDV_effect (env : Env) (toEarse : List UInt16) (r : Router) :
    KeepsLinks r (earseDV env toEarse r) ∧
      ∀ d, entryAt (earseDV env toEarse r) d = earsed env toEarse r.neighborTable d (entryAt r d) := by
  let dead := r.routingTable.filter fun _ route => route.nextHop ∈ toEarse
  let r₁ : Router := if dead.keys = [] then r else { r with isUpdated := false }
  have hr₁ : KeepsLinks r r₁ := by
    dsimp only [r₁]
    split <;> rfl
  have hentry (d : UInt16) : entryAt r₁ d = entryAt r d := by
    dsimp only [r₁]
    split <;> rfl
  have hfold : earseDV env toEarse r = dead.entries.foldl (fun s e => earseEntry env s e.1) r₁ := by
    change dead.keys.foldl (earseEntry env) r₁ = _
    rw [Table.keys, List.foldl_map]
  obtain ⟨hkeeps, hloop⟩ := foldl_pointwise (fun s (e : UInt16 × Route) => earseEntry env s e.1) entryAt
    (fun d _ => fallback env r.neighborTable d) (KeepsLinks r) dead r₁ hr₁ (by
      intro s d route _ hs _
      have hset := fallback_effect env s d
      rw [hs.neighborTable] at hset
      exact ⟨hs.trans hset.keeps, hset.self, hset.other⟩)
  rw [hfold]
  refine ⟨hkeeps, fun d => ?_⟩
  rw [hloop d, hentry, Table.get?_filter]
  cases hroute : r.routingTable.get? d with
  | none => simp [entryAt, earsed, hroute]
  | some route =>
    by_cases hdead : route.nextHop ∈ toEarse <;> simp [entryAt, earsed, hroute, hdead, Option.filter]

end Comp556.Dv
