import Comp556.Routing.DvInvariant
import Comp556.Routing.DvPacket
import Mathlib.Data.Finset.Card

/-!
# Triggered updates

Every change of `routing_table` is announced while the event that caused it is handled: a handler
either clears the change flag and ends in `announce`, or calls `send` itself. The packets tell the
whole table as long as its size fits in 16 bits.
-/

namespace Comp556.Dv

open Router

def Changed (r r' : Router) : Prop := ∃ d, r'.routingTable.get? d ≠ r.routingTable.get? d

/-- `packet` is a DV packet that carries the routing table of `r` with poison reverse for `n`. -/
def Carries (r : Router) (n : UInt16) (packet : Packet) : Prop :=
  PacketType.ofCode (packet.block.memory 0) = some .dv ∧ ∀ env d,
    (readTable env packet.block.memory packet.size).get? d =
      (r.routingTable.get? d).map (announcedCost n d)

/-- Every neighbour is sent such a packet on its port. -/
def AnnouncedToAll (r : Router) (calls : List SysCall) : Prop :=
  ∀ n link, r.neighborTable.get? n = some link →
    ∃ packet, SysCall.send link.port packet ∈ calls ∧ Carries r n packet

variable {env : Env} {r r' s s' : Router}

private theorem not_changed_of_eq (h : r'.routingTable = r.routingTable) : ¬ Changed r r' := by
  rintro ⟨d, hd⟩
  exact hd (by rw [h])

private theorem carries_dvPacket (env : Env) (n : UInt16) (h : r.routingTable.size ≤ 16381) :
    Carries r n (dvPacket env r n) :=
  ⟨dvPacket_type env r n, fun env' d =>
    readTable_of_inBounds env r n env' ((dvPacket_inBounds env r n).mpr (by omega)) d⟩

private theorem size_le_of_carries {n m : UInt16} (h : Carries r m (dvPacket env r n)) :
    r.routingTable.size ≤ 16381 := by
  by_contra hlong
  have hsize := dvPacket_size env r n
  have hkeys : r.routingTable.keys ⊆
      (readTable env (dvPacket env r n).block.memory (dvPacket env r n).size).keys := by
    intro d hd
    rw [Table.mem_keys_iff] at hd ⊢
    rw [h.2 env d, Option.isSome_map]
    exact hd
  have hle := (List.subperm_of_subset r.routingTable.nodup_keys hkeys).length_le
  rw [Table.length_keys, Table.length_keys] at hle
  have hread := readTable_size_le env r n env
  omega

/-- As long as the flag is set, the routes are those of `r`. -/
def Flagged (r s : Router) : Prop := s.isUpdated = true → s.routingTable = r.routingTable

/-- The event ends with the flag set, and if it has changed a route then exactly the packets of the
final table have been sent. -/
structure Triggered (env : Env) (r r' : Router) (calls : List SysCall) : Prop where
  flag : r'.isUpdated = true
  sent : Changed r r' → ∀ port packet, .send port packet ∈ calls ↔ .send port packet ∈ send env r'

theorem Flagged.refl (r : Router) : Flagged r r := fun _ => rfl

theorem Flagged.preferSource (h : Flagged r s) (env : Env) (sourceId : UInt16)
    (dvTable : Table UInt16 UInt16) : Flagged r (preferSource env sourceId s dvTable).1 := by
  unfold Dv.preferSource
  split
  · exact h
  · dsimp only
    split
    · exact fun hflag => by cases hflag
    · exact h

theorem Flagged.recvEntry {port sourceId : UInt16} {entry : UInt16 × UInt16} (h : Flagged r s)
    (hrun : recvEntry env port sourceId s entry = some s') : Flagged r s' := by
  have hlearned (s : Router) (dest totalCost : UInt16) :
      Flagged r (learnRoute env sourceId dest totalCost s) := fun hflag => by cases hflag
  unfold Dv.recvEntry at hrun
  dsimp only at hrun
  split at hrun
  · exact Option.some.inj hrun ▸ h
  · split at hrun
    · exact Option.some.inj hrun ▸ h
    · split at hrun
      · cases hrun
      · split at hrun
        · exact Option.some.inj hrun ▸ hlearned _ _ _
        · split at hrun
          · exact Option.some.inj hrun ▸ hlearned _ _ _
          · rw [← Option.some.inj hrun]
            split <;> exact h

theorem Flagged.refreshEntry {dvEntry : UInt16 × UInt32} (h : Flagged r s)
    (hrun : refreshEntry env s dvEntry = some s') : Flagged r s' := by
  cases hroute : s.routingTable.get? dvEntry.1 with
  | none => simp [Dv.refreshEntry, hroute] at hrun
  | some route =>
    simp only [Dv.refreshEntry, hroute] at hrun
    have hkept : Flagged r (if dvEntry.1 = route.nextHop then
        { s with dvTime := s.dvTime.insert env.layout dvEntry.1 (renewed env) } else s) := by
      split <;> exact h
    generalize (if dvEntry.1 = route.nextHop then
      { s with dvTime := s.dvTime.insert env.layout dvEntry.1 (renewed env) } else s) = s₁ at hrun hkept
    split at hrun
    · split at hrun
      all_goals
        rw [← Option.some.inj hrun]
        exact fun hflag => by cases hflag
    · exact Option.some.inj hrun ▸ hkept

/-- `earseDV` clears the flag before it touches a route. -/
theorem Flagged.earseDV (h : Flagged r s) (env : Env) (toEarse : List UInt16) :
    Flagged r (earseDV env toEarse s) := by
  have hloop (id : List UInt16) (s : Router) (hs : s.isUpdated = false) :
      (id.foldl (earseEntry env) s).isUpdated = false := by
    induction id generalizing s with
    | nil => exact hs
    | cons node id ih =>
      apply ih _
      unfold earseEntry
      split <;> exact hs
  unfold Dv.earseDV
  dsimp only
  split
  · rename_i hnone
    rw [hnone]
    exact h
  · intro hflag
    rw [hloop _ _ rfl] at hflag
    cases hflag

theorem Flagged.announce (h : Flagged r s) (env : Env) :
    Triggered env r (announce env s).1 (announce env s).2 := by
  unfold Dv.announce
  split
  · rename_i hflag
    exact ⟨hflag, fun hchanged => absurd hchanged (not_changed_of_eq (h hflag))⟩
  · exact ⟨rfl, fun _ port packet => Iff.rfl⟩

theorem Triggered.kept (env : Env) (hflag : r'.isUpdated = true) (h : r'.routingTable = r.routingTable)
    (calls : List SysCall) : Triggered env r r' calls :=
  ⟨hflag, fun hchanged => absurd hchanged (not_changed_of_eq h)⟩

variable {attached : UInt16 → UInt16} {numPorts routerId : UInt16} {calls : List SysCall}

theorem Triggered.recv {port : UInt16} {msg : Memory} {size : UInt16} (hflag : r.isUpdated = true)
    (hrun : recv env port msg size r = some (r', calls)) : Triggered env r r' calls := by
  unfold Dv.recv at hrun
  dsimp only at hrun
  split at hrun
  · obtain ⟨s, hloop, hannounce⟩ := Option.map_eq_some_iff.mp hrun
    have hflagged : Flagged r s := foldlM_invariant (Flagged r) hloop
      ((Flagged.refl r).preferSource env _ _) fun _ _ _ h hbody => h.recvEntry hbody
    have htriggered := hflagged.announce env
    rwa [hannounce] at htriggered
  · obtain ⟨rfl, -⟩ := Prod.mk.inj (Option.some.inj hrun)
    exact .kept env hflag rfl calls

theorem Triggered.recvPong (hinv : DvInv attached numPorts routerId r) (hflag : r.isUpdated = true)
    {port : UInt16} {packet : Packet} (hfrom : FromAttached attached numPorts port packet)
    (env : Env) : Triggered env r (recvPong env port packet.block.memory r).1
      (recvPong env port packet.block.memory r).2 := by
  let rtt := roundTripTime env packet.block.memory
  have hroutes := notePong_routingTable env port rtt hinv.tables hinv.ports
  have hnoted : (notePong env port (attached port) rtt r).1.isUpdated = true := by
    unfold notePong
    split <;> exact hflag
  rw [recvPong_dv env port _ r hinv.mode, hfrom.2]
  split
  · split
    · exact ⟨(update_isUpdated env ..).trans hnoted, fun _ port packet => Iff.rfl⟩
    · exact .kept env hnoted hroutes []
  · exact .kept env hflag rfl []

theorem Triggered.updateTimeout (hinv : DvInv attached numPorts routerId r)
    (hrun : updateTimeout env r = some (r', calls)) : Triggered env r r' calls := by
  have hdropped : Flagged r (dropExpired env r) := fun _ => by rw [dropExpired_keeps]
  have hmode : (dropExpired env r).protocolType = .dv := by
    rw [dropExpired_keeps]
    exact hinv.mode
  rw [updateTimeout_dv env hmode, refresh] at hrun
  obtain ⟨s, hloop, hannounce⟩ := Option.map_eq_some_iff.mp hrun
  have hflagged : Flagged r s := by
    refine foldlM_invariant (Flagged r) hloop ?_ fun _ _ _ h hbody => h.refreshEntry hbody
    split
    · exact hdropped.earseDV env _
    · exact hdropped
  have htriggered := hflagged.announce env
  rwa [hannounce] at htriggered

theorem Triggered.handle (hinv : DvInv attached numPorts routerId r) (hflag : r.isUpdated = true)
    {event : Event} (hevent : DvEvent attached numPorts event)
    (hhandle : handle env r event = some (r', calls)) : Triggered env r r' calls := by
  have hsame {calls' : List SysCall} (h : some (r, calls') = some (r', calls)) : Triggered env r r' calls := by
    obtain ⟨rfl, -⟩ := Prod.mk.inj (Option.some.inj h)
    exact .kept env hflag rfl calls
  cases event with
  | packet port packet =>
    simp only [DvEvent] at hevent
    simp only [Router.handle, Router.recv] at hhandle
    cases htype : PacketType.ofCode (packet.block.memory 0) with
    | none =>
      rw [htype] at hhandle
      exact hsame hhandle
    | some type =>
      rw [htype] at hevent hhandle
      cases type with
      | data => exact hsame hhandle
      | ping => exact hsame hhandle
      | ls => exact hevent.elim
      | dv => exact .recv hflag hhandle
      | pong =>
        have htriggered := Triggered.recvPong hinv hflag hevent env
        rwa [Option.some.inj hhandle] at htriggered
  | alarm alarm =>
    cases alarm with
    | ping => exact hsame hhandle
    | dv => exact hsame hhandle
    | ls => exact absurd rfl hevent
    | port =>
      simp only [Router.handle, Router.handleAlarm, Option.map_eq_some_iff] at hhandle
      obtain ⟨⟨s, sent⟩, hrun, heq⟩ := hhandle
      obtain ⟨rfl, rfl⟩ := Prod.mk.inj heq
      obtain ⟨hset, hsent⟩ := Triggered.updateTimeout hinv hrun
      exact ⟨hset, fun hchanged port packet => by simp [← hsent hchanged port packet]⟩

/-- The destinations that an event may add: the author of a pong for this router, or what a
neighbour lists at a finite cost. -/
def heard (env : Env) (r : Router) : Event → List UInt16
  | .packet _ packet =>
    let msg := packet.block.memory
    match PacketType.ofCode (msg 0) with
    | some .pong => if r.routerId = ntohs (msg.load16 6) then [ntohs (msg.load16 4)] else []
    | some .dv =>
      if r.neighborTable.contains (ntohs (msg.load16 4)) then
        ((readTable env msg packet.size).filter fun d cost => d ≠ r.routerId ∧ cost ≠ infinityCost).keys
      else []
    | _ => []
  | .alarm _ => []

/-- The routes of a router and what an event makes known are together no more than the 16-bit size
of a packet can carry. -/
def HearsFew (env : Env) (r : Router) (event : Event) : Prop :=
  (r.routingTable.keys ++ heard env r event).toFinset.card ≤ 16381

/-- The event only adds what it makes known, and adds all of it, in which case there is a neighbour. -/
structure Learns (env : Env) (r : Router) (event : Event) (r' : Router) : Prop where
  known : ∀ d, (r'.routingTable.get? d).isSome → (r.routingTable.get? d).isSome ∨ d ∈ heard env r event
  learned : heard env r event ≠ [] →
    (∀ d, (r.routingTable.get? d).isSome ∨ d ∈ heard env r event → (r'.routingTable.get? d).isSome) ∧
      ∃ n, (r'.neighborTable.get? n).isSome

theorem Learns.kept {event : Event} (h : heard env r event = [])
    (hroutes : ∀ d, (r'.routingTable.get? d).isSome → (r.routingTable.get? d).isSome) :
    Learns env r event r' :=
  ⟨fun d hd => .inl (hroutes d hd), fun hheard => absurd h hheard⟩

private theorem update_routes (env : Env) (id rtt oldRTT : UInt16) (r : Router) (d : UInt16) :
    ((update env id rtt oldRTT r).routingTable.get? d).isSome ↔
      d = id ∨ (r.routingTable.get? d).isSome := by
  have hdirect (entry : Option Route × Option UInt32) :
      (if d = id then (some ⟨rtt, id⟩, some (renewed env)) else entry).1.isSome ↔
        d = id ∨ entry.1.isSome := by
    by_cases hd : d = id <;> simp [hd]
  cases hroute : r.routingTable.get? id with
  | none =>
    rw [update_of_no_route env id rtt oldRTT r hroute]
    have hentry := congrArg Prod.fst (entryAt_setDirect env id rtt r d)
    rw [show (setDirect env id rtt r).routingTable.get? d = _ from hentry]
    exact hdirect (entryAt r d)
  | some route =>
    by_cases htakes : takesOver id rtt route
    · have hentry := congrArg Prod.fst ((update_effect env id rtt oldRTT r route hroute htakes).2 d)
      rw [show (update env id rtt oldRTT r).routingTable.get? d = _ from hentry, adjusted_isSome]
      exact hdirect (entryAt r d)
    · rw [update_of_kept env id rtt oldRTT r route hroute htakes]
      refine (or_iff_right_of_imp ?_).symm
      intro heq
      subst heq
      simp [hroute]

theorem Learns.recvPong (hinv : DvInv attached numPorts routerId r) {port : UInt16} {packet : Packet}
    (hfrom : FromAttached attached numPorts port packet)
    (htype : PacketType.ofCode (packet.block.memory 0) = some .pong) (env : Env) :
    Learns env r (.packet port packet) (recvPong env port packet.block.memory r).1 := by
  let rtt := roundTripTime env packet.block.memory
  let noted := (notePong env port (attached port) rtt r).1
  have hroutes : noted.routingTable = r.routingTable :=
    notePong_routingTable env port rtt hinv.tables hinv.ports
  have hlink : noted.neighborTable.get? (attached port) = some (freshLink env port rtt) :=
    ((notePong_tables env port rtt hinv.ports).1 (attached port)).trans (if_pos rfl)
  by_cases hdest : r.routerId = ntohs (packet.block.memory.load16 6)
  · have hheard : heard env r (.packet port packet) = [attached port] := by
      simp only [heard, htype]
      rw [if_pos hdest, hfrom.2]
    have hlearns {r' : Router}
        (hkeys : ∀ d, (r'.routingTable.get? d).isSome ↔ d = attached port ∨ (r.routingTable.get? d).isSome)
        (hlinks : r'.neighborTable = noted.neighborTable) : Learns env r (.packet port packet) r' := by
      refine ⟨fun d hd => ?_, fun _ => ⟨fun d hd => ?_, attached port, by simp [hlinks, hlink]⟩⟩
      · rw [hheard, List.mem_singleton]
        exact ((hkeys d).mp hd).symm
      · rw [hheard, List.mem_singleton] at hd
        exact (hkeys d).mpr hd.symm
    rw [recvPong_dv env port _ r hinv.mode, hfrom.2, if_pos hdest]
    split
    · refine hlearns (fun d => ?_) (update_keepsLinks env ..).neighborTable
      rw [update_routes, show (notePong env port (attached port) rtt r).1.routingTable = _ from hroutes]
    · rename_i hsame
      have hknown : r.portTable.contains port := by
        by_contra hnew
        simp [notePong_of_new env port rtt hnew, rtt] at hsame
      have hrouted := hinv.tables.routed_of_known hinv.ports hknown
      refine hlearns (fun d => ?_) rfl
      rw [show (notePong env port (attached port) rtt r).1.routingTable = _ from hroutes]
      refine (or_iff_right_of_imp ?_).symm
      intro heq
      subst heq
      exact hrouted
  · rw [recvPong_dv env port _ r hinv.mode, if_neg hdest]
    refine .kept ?_ fun d hd => hd
    simp only [heard, htype]
    rw [if_neg hdest]

theorem Learns.recv (hinv : DvInv attached numPorts routerId r) (ha : Attached attached numPorts routerId)
    {port : UInt16} {packet : Packet} (hfrom : FromAttached attached numPorts port packet)
    (htype : PacketType.ofCode (packet.block.memory 0) = some .dv)
    (hrun : recv env port packet.block.memory packet.size r = some (r', calls)) :
    Learns env r (.packet port packet) r' := by
  cases hlink : r.neighborTable.get? (ntohs (packet.block.memory.load16 4)) with
  | none =>
    rw [recv_of_not_neighbor env port _ _ r hlink] at hrun
    obtain ⟨rfl, -⟩ := Prod.mk.inj (Option.some.inj hrun)
    refine .kept ?_ fun d hd => hd
    simp [heard, htype, Table.contains_eq, hlink]
  | some link =>
    obtain ⟨r'', _, hrun', hkeeps, heffect⟩ := recv_effect env port packet.block.memory packet.size r link
      (hinv.sender ha hfrom hlink) hlink
    obtain ⟨rfl, -⟩ := Prod.mk.inj (Option.some.inj (hrun.symm.trans hrun'))
    have hheard (d : UInt16) : d ∈ heard env r (.packet port packet) ↔
        ∃ a, (readTable env packet.block.memory packet.size).get? d = some a ∧ d ≠ r.routerId ∧
          a ≠ infinityCost := by
      simp only [heard, htype, Table.contains_eq, hlink, Option.isSome_some, if_true, Table.mem_keys_iff,
        Table.get?_filter, Option.isSome_iff_exists, Option.filter_eq_some_iff, decide_eq_true_eq]
    have hkeys (d : UInt16) : (r'.routingTable.get? d).isSome ↔
        (r.routingTable.get? d).isSome ∨ d ∈ heard env r (.packet port packet) := by
      rw [show r'.routingTable.get? d = _ from congrArg Prod.fst (heffect d), received_isSome, hheard]
      rfl
    exact ⟨fun d => (hkeys d).mp, fun _ => ⟨fun d => (hkeys d).mpr,
      ntohs (packet.block.memory.load16 4), by simp [hkeeps.neighborTable, hlink]⟩⟩

private theorem updateTimeout_routes (hinv : DvInv attached numPorts routerId r)
    (hrun : updateTimeout env r = some (r', calls)) (d : UInt16)
    (hd : (r'.routingTable.get? d).isSome) : (r.routingTable.get? d).isSome := by
  obtain ⟨r'', _, hrun', _, heffect⟩ := updateTimeout_effect env r hinv.mode fun d hd =>
    (hinv.tables d).deadline ▸ hd
  obtain ⟨rfl, -⟩ := Prod.mk.inj (Option.some.inj (hrun.symm.trans hrun'))
  cases hroute : r.routingTable.get? d with
  | some route => rfl
  | none =>
    rw [show r'.routingTable.get? d = _ from congrArg Prod.fst (heffect d), entryAt, hroute] at hd
    exact hd

theorem Learns.handle (hinv : DvInv attached numPorts routerId r) (ha : Attached attached numPorts routerId)
    {event : Event} (hevent : DvEvent attached numPorts event)
    (hhandle : handle env r event = some (r', calls)) : Learns env r event r' := by
  have hsame {calls' : List SysCall} (h : some (r, calls') = some (r', calls))
      (hheard : heard env r event = []) : Learns env r event r' := by
    obtain ⟨rfl, -⟩ := Prod.mk.inj (Option.some.inj h)
    exact .kept hheard fun d hd => hd
  cases event with
  | packet port packet =>
    simp only [DvEvent] at hevent
    simp only [Router.handle, Router.recv] at hhandle
    cases htype : PacketType.ofCode (packet.block.memory 0) with
    | none =>
      rw [htype] at hhandle
      exact hsame hhandle (by simp [heard, htype])
    | some type =>
      rw [htype] at hevent hhandle
      cases type with
      | data => exact hsame hhandle (by simp [heard, htype])
      | ping => exact hsame hhandle (by simp [heard, htype])
      | ls => exact hevent.elim
      | dv => exact .recv hinv ha hevent htype hhandle
      | pong => exact final_eq hhandle ▸ .recvPong hinv hevent htype env
  | alarm alarm =>
    cases alarm with
    | ping => exact hsame hhandle rfl
    | dv => exact hsame hhandle rfl
    | ls => exact absurd rfl hevent
    | port =>
      simp only [Router.handle, Router.handleAlarm, Option.map_eq_some_iff] at hhandle
      obtain ⟨⟨s, sent⟩, hrun, heq⟩ := hhandle
      obtain ⟨rfl, -⟩ := Prod.mk.inj heq
      exact .kept rfl (updateTimeout_routes hinv hrun)

theorem size_eq_card (t : RoutingTable) : t.size = t.keys.toFinset.card := by
  rw [List.toFinset_card_of_nodup t.nodup_keys, Table.length_keys]

theorem Learns.size_le {event : Event} (h : Learns env r event r') (hfew : HearsFew env r event) :
    r'.routingTable.size ≤ 16381 := by
  rw [size_eq_card]
  refine (Finset.card_le_card fun d hd => ?_).trans hfew
  rw [List.mem_toFinset, Table.mem_keys_iff] at hd
  rw [List.mem_toFinset, List.mem_append, Table.mem_keys_iff]
  exact h.known d hd

private theorem Learns.hearsFew {event : Event} (h : Learns env r event r') (hheard : heard env r event ≠ [])
    (hsize : r'.routingTable.size ≤ 16381) : HearsFew env r event := by
  rw [size_eq_card] at hsize
  refine (Finset.card_le_card fun d hd => ?_).trans hsize
  rw [List.mem_toFinset, List.mem_append, Table.mem_keys_iff] at hd
  rw [List.mem_toFinset, Table.mem_keys_iff]
  exact (h.learned hheard).1 d hd

/-- One event of DV mode that tells a router little enough. -/
def FewStep (attached : UInt16 → UInt16) (numPorts : UInt16) (r r' : Router) : Prop :=
  ∃ env event calls, DvEvent attached numPorts event ∧ HearsFew env r event ∧
    handle env r event = some (r', calls)

/-- What holds along such runs. -/
structure FewInv (attached : UInt16 → UInt16) (numPorts routerId : UInt16) (r : Router) : Prop where
  inv : DvInv attached numPorts routerId r
  flag : r.isUpdated = true
  size : r.routingTable.size ≤ 16381

theorem FewInv.run (ha : Attached attached numPorts routerId)
    (hrun : Relation.ReflTransGen (FewStep attached numPorts) (Router.init numPorts routerId .dv) r) :
    FewInv attached numPorts routerId r := by
  apply run_invariant _ hrun ⟨.init attached numPorts routerId, rfl, Nat.zero_le _⟩
  rintro s s' ⟨hinv, hflag, -⟩ ⟨env, event, calls, hevent, hfew, hhandle⟩
  obtain ⟨s'', calls', hhandle', hinv'⟩ := hinv.handle ha env hevent
  obtain ⟨rfl, -⟩ := Prod.mk.inj (Option.some.inj (hhandle.symm.trans hhandle'))
  exact ⟨hinv', (Triggered.handle hinv hflag hevent hhandle).flag,
    (Learns.handle hinv ha hevent hhandle).size_le hfew⟩

theorem Triggered.announced (h : Triggered env r r' calls) (hchanged : Changed r r')
    (hsize : r'.routingTable.size ≤ 16381) : AnnouncedToAll r' calls := by
  intro n link hlink
  refine ⟨dvPacket env r' n, (h.sent hchanged _ _).mpr ?_, carries_dvPacket env n hsize⟩
  exact List.mem_map.mpr ⟨(n, link), (Table.mem_entries_iff ..).mpr hlink, rfl⟩

theorem Triggered.size_le (h : Triggered env r r' calls) (hchanged : Changed r r') {n : UInt16}
    {port : UInt16} {packet : Packet} (hsent : .send port packet ∈ calls) (hcarries : Carries r' n packet) :
    r'.routingTable.size ≤ 16381 := by
  obtain ⟨e, -, heq⟩ := List.mem_map.mp ((h.sent hchanged port packet).mp hsent)
  obtain ⟨-, rfl⟩ := SysCall.send.inj heq
  exact size_le_of_carries hcarries

private theorem changed_of_size (h : r'.routingTable.size ≠ r.routingTable.size) : Changed r r' := by
  by_contra hsame
  apply h
  rw [size_eq_card, size_eq_card]
  congr 1
  ext d
  have heq : r'.routingTable.get? d = r.routingTable.get? d := by
    by_contra hd
    exact hsame ⟨d, hd⟩
  rw [List.mem_toFinset, List.mem_toFinset, Table.mem_keys_iff, Table.mem_keys_iff, heq]

private theorem Triggered.unannounced {event : Event} (h : Triggered env r r' calls)
    (hlearns : Learns env r event r') (hsize : r.routingTable.size ≤ 16381)
    (hmany : ¬ HearsFew env r event) :
    Changed r r' ∧ (∃ n, (r'.neighborTable.get? n).isSome) ∧
      ∀ port packet n, .send port packet ∈ calls → ¬ Carries r' n packet := by
  have hheard : heard env r event ≠ [] := by
    intro hnone
    rw [HearsFew, hnone, List.append_nil, ← size_eq_card] at hmany
    exact hmany hsize
  have hlong : ¬ r'.routingTable.size ≤ 16381 := fun hle => hmany (hlearns.hearsFew hheard hle)
  have hchanged : Changed r r' := changed_of_size (by omega)
  exact ⟨hchanged, (hlearns.learned hheard).2, fun port packet n hsent hcarries =>
    hlong (h.size_le hchanged hsent hcarries)⟩

private theorem FewInv.unannounced (h : FewInv attached numPorts routerId r)
    (ha : Attached attached numPorts routerId) {event : Event} (hevent : DvEvent attached numPorts event)
    (hmany : ¬ HearsFew env r event) :
    ∃ r' calls, handle env r event = some (r', calls) ∧ Changed r r' ∧
      (∃ n, (r'.neighborTable.get? n).isSome) ∧
      ∀ port packet n, .send port packet ∈ calls → ¬ Carries r' n packet := by
  obtain ⟨r', calls, hhandle, -⟩ := h.inv.handle ha env hevent
  exact ⟨r', calls, hhandle, (Triggered.handle h.inv h.flag hevent hhandle).unannounced
    (Learns.handle h.inv ha hevent hhandle) h.size hmany⟩

/-- As long as the routes and what each event makes known fit in one packet, an event that changes the table
sends every neighbour a packet with the final table, on its port and with poison reverse, and leaves the
change flag set; the first event for which they do not fit changes the table and leaves it unannounced. -/
theorem triggered_updates_iff (ha : Attached attached numPorts routerId)
    (hrun : Relation.ReflTransGen (FewStep attached numPorts) (Router.init numPorts routerId .dv) r)
    (env : Env) {event : Event} (hevent : DvEvent attached numPorts event)
    (hhandle : handle env r event = some (r', calls)) :
    (r'.isUpdated = true ∧ (Changed r r' → AnnouncedToAll r' calls)) ↔ HearsFew env r event := by
  obtain ⟨hinv, hflag, hsize⟩ := FewInv.run ha hrun
  have htriggered := Triggered.handle hinv hflag hevent hhandle
  have hlearns := Learns.handle hinv ha hevent hhandle
  constructor
  · rintro ⟨-, hannounced⟩
    by_contra hmany
    obtain ⟨hchanged, ⟨n, hn⟩, hnone⟩ := htriggered.unannounced hlearns hsize hmany
    obtain ⟨link, hlink⟩ := Option.isSome_iff_exists.mp hn
    obtain ⟨packet, hsent, hcarries⟩ := hannounced hchanged n link hlink
    exact hnone _ _ _ hsent hcarries
  · exact fun hfew => ⟨htriggered.flag, fun hchanged => htriggered.announced hchanged (hlearns.size_le hfew)⟩

theorem firstPong_announced :
    let pong := recvPong (sampleEnv 5) 0 firstPong.block.memory (Router.init 1 1 .dv)
    Changed (Router.init 1 1 .dv) pong.1 → AnnouncedToAll pong.1 pong.2 :=
  ((triggered_updates_iff onePort_attached .refl (sampleEnv 5) firstPong_event rfl).mpr
    (by unfold HearsFew; decide)).2

private theorem dvEvent_dvPacket (env : Env) {port : UInt16} {s : Router} (n : UInt16) (hport : port < numPorts)
    (hsource : s.routerId = attached port) : DvEvent attached numPorts (.packet port (dvPacket env s n)) := by
  simp only [DvEvent, dvPacket_type]
  exact ⟨hport, (dvPacket_source env s n).trans hsource⟩

private theorem heard_of_announced (env envS : Env) {r s : Router} (port : UInt16) {d : UInt16} {route : Route}
    (hneighbor : r.neighborTable.contains s.routerId) (hsize : s.routingTable.size ≤ 16381)
    (hroute : s.routingTable.get? d = some route) (hself : d ≠ r.routerId)
    (hcost : announcedCost r.routerId d route ≠ infinityCost) :
    d ∈ heard env r (.packet port (dvPacket envS s r.routerId)) := by
  have hlisted := readTable_of_inBounds envS s r.routerId env ((dvPacket_inBounds ..).mpr (by omega)) d
  rw [hroute, Option.map_some] at hlisted
  simp only [heard, dvPacket_type, dvPacket_source, hneighbor, if_true, Table.mem_keys_iff,
    Table.get?_filter, hlisted]
  simp [hself, hcost]

/-- Routes of cost 1 to `n` destinations from 100 on. -/
@[irreducible] def manyRoutes (n : Nat) (h : n ≤ 65436) : RoutingTable where
  entries := (List.range n).map fun i => (UInt16.ofNat (100 + i), ⟨1, 3⟩)
  nodup := by
    rw [List.map_map]
    refine List.Nodup.map_on (fun i hi j hj h => ?_) List.nodup_range
    have heq := congrArg UInt16.toNat h
    simp only [List.mem_range] at hi hj
    simp only [Function.comp_apply, UInt16.toNat_ofNat'] at heq
    omega

private theorem manyRoutes_entries (n : Nat) (h : n ≤ 65436) :
    (manyRoutes n h).entries = (List.range n).map fun i => (UInt16.ofNat (100 + i), ⟨1, 3⟩) := by
  unfold manyRoutes
  rfl

private theorem manyRoutes_size (n : Nat) (h : n ≤ 65436) : (manyRoutes n h).size = n := by
  rw [Table.size, manyRoutes_entries, List.length_map, List.length_range]

private theorem mem_manyRoutes {n : Nat} {h : n ≤ 65436} {d : UInt16} (hd : d ∈ (manyRoutes n h).keys) :
    (manyRoutes n h).get? d = some ⟨1, 3⟩ ∧ 100 ≤ d.toNat := by
  obtain ⟨route, hroute⟩ := Option.isSome_iff_exists.mp ((Table.mem_keys_iff ..).mp hd)
  have hmem := (Table.mem_entries_iff ..).mpr hroute
  rw [manyRoutes_entries] at hmem
  simp only [List.mem_map, List.mem_range, Prod.mk.injEq] at hmem
  obtain ⟨i, hi, rfl, rfl⟩ := hmem
  refine ⟨hroute, ?_⟩
  simp only [UInt16.toNat_ofNat']
  omega

def crowdRouter : Router := { Router.init 1 10 .dv with routingTable := manyRoutes 16381 (by decide) }

def pongedRouter : Router := (recvPong (sampleEnv 5) 0 firstPong.block.memory (Router.init 1 1 .dv)).1

private theorem crowd_heard {d : UInt16} (hd : d ∈ crowdRouter.routingTable.keys) :
    d ∈ heard (sampleEnv 6) pongedRouter (.packet 0 (dvPacket (sampleEnv 0) crowdRouter 1)) := by
  obtain ⟨hroute, hlow⟩ := mem_manyRoutes hd
  have hself : d ≠ 1 := by
    intro heq
    subst heq
    exact absurd hlow (by decide)
  refine heard_of_announced (r := pongedRouter) (s := crowdRouter) _ _ 0 (by decide) (manyRoutes_size _ _).le
    hroute hself ?_
  rw [announcedCost, if_neg (fun h => absurd h.1 (by decide))]
  decide

private theorem crowd_many :
    ¬ HearsFew (sampleEnv 6) pongedRouter (.packet 0 (dvPacket (sampleEnv 0) crowdRouter 1)) := by
  have hnodup : (10 :: crowdRouter.routingTable.keys).Nodup :=
    List.nodup_cons.mpr ⟨fun hd => absurd (mem_manyRoutes hd).2 (by decide), (Table.nodup_keys _)⟩
  have hsub : (10 :: crowdRouter.routingTable.keys).toFinset ⊆ (pongedRouter.routingTable.keys ++
      heard (sampleEnv 6) pongedRouter (.packet 0 (dvPacket (sampleEnv 0) crowdRouter 1))).toFinset := by
    intro d hd
    rw [List.mem_toFinset, List.mem_append]
    rcases List.mem_cons.mp (List.mem_toFinset.mp hd) with rfl | hd
    · exact .inl (by decide)
    · exact .inr (crowd_heard hd)
  have hcard := Finset.card_le_card hsub
  rw [List.toFinset_card_of_nodup hnodup, List.length_cons, Table.length_keys,
    show crowdRouter.routingTable.size = _ from manyRoutes_size _ _] at hcard
  exact fun hfew => absurd (hcard.trans hfew) (by decide)

private theorem crowd_event :
    DvEvent (fun _ => 10) 1 (.packet 0 (dvPacket (sampleEnv 0) crowdRouter 1)) :=
  dvEvent_dvPacket (sampleEnv 0) 1 (by decide) rfl

private theorem ponged_reachable : DvReachable (fun _ => 10) 1 1 pongedRouter :=
  .single ⟨sampleEnv 5, .packet 0 firstPong, _, firstPong_event, rfl⟩

/-- The pong of router 10 and its packet make 16382 routes known, and none of the packets that router 1
then sends carries its table. -/
theorem crowd_unannounced :
    Attached (fun _ => 10) 1 1 ∧ DvReachable (fun _ => 10) 1 1 pongedRouter ∧
      DvEvent (fun _ => 10) 1 (.packet 0 (dvPacket (sampleEnv 0) crowdRouter 1)) ∧
      ∃ r' calls, handle (sampleEnv 6) pongedRouter (.packet 0 (dvPacket (sampleEnv 0) crowdRouter 1)) =
          some (r', calls) ∧
        Changed pongedRouter r' ∧ (∃ n, (r'.neighborTable.get? n).isSome) ∧
        ∀ port packet n, .send port packet ∈ calls → ¬ Carries r' n packet := by
  have hinv : FewInv (fun _ => 10) 1 1 pongedRouter :=
    ⟨DvInv.run onePort_attached ponged_reachable, rfl, by decide⟩
  refine ⟨onePort_attached, ponged_reachable, crowd_event, ?_⟩
  exact hinv.unannounced onePort_attached crowd_event crowd_many

end Comp556.Dv
