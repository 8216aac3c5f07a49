import Comp556.Routing.DvTriggered
import Comp556.Routing.LsPacket
import Comp556.Routing.Neighbors
import Comp556.Routing.PingPong

/-!
# What a handler does to its surroundings

The calls a router may make for an event, and the links it may enter, in both modes.
-/

namespace Comp556.Router

open Dv Ls

variable {env : Env} {r r' : Router} {event : Event} {calls : List SysCall} {c : SysCall} {n : UInt16}
    {link : Link}

/-- A call for an event that leads from `r` to `r'`. -/
inductive MayCall (env : Env) (r r' : Router) : Event → SysCall → Prop
  | ping {event : Event} {port : UInt16} (hport : port < r.numPorts) :
      MayCall env r r' event (.send port (pingPacket env r))
  | pong {port : UInt16} {packet : Packet} (htype : PacketType.ofCode (packet.block.memory 0) = some .ping) :
      MayCall env r r' (.packet port packet) (.send port (pongPacket env packet.block.memory r))
  | dv {event : Event} {n : UInt16} {link : Link} (hmode : r'.protocolType = .dv)
      (hlink : r'.neighborTable.get? n = some link) :
      MayCall env r r' event (.send link.port (dvPacket env r' n))
  | ls {event : Event} {n : UInt16} {link : Link} {s : Router} (hmode : r'.protocolType = .ls)
      (hlink : r'.neighborTable.get? n = some link) (hid : s.routerId = r'.routerId)
      (htable : s.neighborTable = r'.neighborTable) :
      MayCall env r r' event (.send link.port (lsPacket env s))
  | forward {port n : UInt16} {packet : Packet} {link : Link} (hlink : r'.neighborTable.get? n = some link)
      (htype : PacketType.ofCode (packet.block.memory 0) = some .data ∨
        PacketType.ofCode (packet.block.memory 0) = some .ls) :
      MayCall env r r' (.packet port packet) (.send link.port packet)
  | again (duration : UInt32) (alarm : Alarm) : MayCall env r r' (.alarm alarm) (.setAlarm duration alarm)

def Enters (env : Env) (event : Event) (n : UInt16) (link : Link) : Prop :=
  ∃ port packet, event = .packet port packet ∧ PacketType.ofCode (packet.block.memory 0) = some .pong ∧
    n = ntohs (packet.block.memory.load16 4) ∧ link = freshLink env port (roundTripTime env packet.block.memory)

private theorem mem_sendPings (h : c ∈ sendPings env r) :
    ∃ port, port < r.numPorts ∧ c = .send port (pingPacket env r) := by
  obtain ⟨p, hp, rfl⟩ := List.mem_map.mp h
  have hlt := List.mem_range.mp hp
  refine ⟨UInt16.ofNat p, ?_, sendPing_eq env r _⟩
  have hmax := r.numPorts.toNat_lt
  rw [UInt16.lt_iff_toNat_lt, UInt16.toNat_ofNat']
  omega

theorem mem_initCalls (h : c ∈ initCalls env r) :
    (∃ port, port < r.numPorts ∧ c = .send port (pingPacket env r)) ∨
    ∃ duration alarm, c = .setAlarm duration alarm ∧
      alarm ≠ match r.protocolType with
        | .dv => .ls
        | .ls => .dv := by
  rcases List.mem_append.mp h with hping | halarm
  · exact .inl (mem_sendPings hping)
  · cases hmode : r.protocolType with
    | dv | ls =>
      simp only [hmode, List.mem_cons, List.not_mem_nil, or_false] at halarm
      rcases halarm with rfl | rfl | rfl <;> exact .inr ⟨_, _, rfl, by decide⟩

private theorem mem_recvData {packet : Packet} (h : c ∈ recvData packet r) :
    ∃ n link, r.neighborTable.get? n = some link ∧ c = .send link.port packet := by
  unfold recvData at h
  dsimp only at h
  split at h
  · cases h
  split at h
  · cases h
  split at h
  · cases h
  · rename_i link hlink
    exact ⟨_, link, hlink, List.mem_singleton.mp h⟩

private theorem mem_send (h : c ∈ send env r) :
    ∃ n link, r.neighborTable.get? n = some link ∧ c = .send link.port (dvPacket env r n) := by
  obtain ⟨e, he, rfl⟩ := List.mem_map.mp h
  exact ⟨e.1, e.2, (Table.mem_entries_iff ..).mp he, rfl⟩

private theorem mem_sendLS {msg : Packet} {port : UInt16} (h : c ∈ sendLS r msg port) :
    ∃ n link, r.neighborTable.get? n = some link ∧ c = .send link.port msg := by
  obtain ⟨e, he, rfl⟩ := List.mem_map.mp h
  exact ⟨e.1, e.2, (Table.mem_entries_iff ..).mp (List.mem_filter.mp he).1, rfl⟩

private theorem MayCall.of_mem_send (hmode : r'.protocolType = .dv) (h : c ∈ send env r') :
    MayCall env r r' event c := by
  obtain ⟨n, link, hlink, rfl⟩ := mem_send h
  exact .dv hmode hlink

private theorem MayCall.of_announce {s : Router} (hmode : r'.protocolType = .dv)
    (hannounce : announce env s = (r', calls)) (h : c ∈ calls) : MayCall env r r' event c := by
  unfold announce at hannounce
  split at hannounce
  · obtain ⟨rfl, rfl⟩ := Prod.mk.inj hannounce
    cases h
  · obtain ⟨rfl, rfl⟩ := Prod.mk.inj hannounce
    exact .of_mem_send hmode h

private theorem MayCall.of_updateLS {s : Router} (hmode : s.protocolType = .ls) (h : c ∈ (updateLS env s).2) :
    MayCall env r (updateLS env s).1 event c := by
  obtain ⟨n, link, hlink, rfl⟩ := mem_sendLS h
  exact .ls hmode hlink rfl rfl

section Dv

variable {attached : UInt16 → UInt16} {numPorts routerId : UInt16} (hinv : DvInv attached numPorts routerId r)
variable (ha : Attached attached numPorts routerId) (hevent : DvEvent attached numPorts event)
variable (hhandle : handle env r event = some (r', calls))
include hinv ha hevent hhandle

private theorem dvInv_handle : DvInv attached numPorts routerId r' := by
  obtain ⟨_, _, hrun, hinv'⟩ := hinv.handle ha env hevent
  obtain ⟨rfl, -⟩ := Prod.mk.inj (Option.some.inj (hhandle.symm.trans hrun))
  exact hinv'

private theorem mayCall_dv (hc : c ∈ calls) : MayCall env r r' event c := by
  have hmode := (dvInv_handle hinv ha hevent hhandle).mode
  cases event with
  | packet port packet =>
    simp only [DvEvent] at hevent
    simp only [handle, recv] at hhandle
    cases htype : PacketType.ofCode (packet.block.memory 0) with
    | none =>
      rw [htype] at hhandle
      obtain ⟨rfl, rfl⟩ := Prod.mk.inj (Option.some.inj hhandle)
      cases hc
    | some type =>
      rw [htype] at hevent hhandle
      cases type with
      | data =>
        obtain ⟨rfl, rfl⟩ := Prod.mk.inj (Option.some.inj hhandle)
        obtain ⟨n, link, hlink, rfl⟩ := mem_recvData hc
        exact .forward hlink (.inl htype)
      | ping =>
        obtain ⟨rfl, rfl⟩ := Prod.mk.inj (Option.some.inj hhandle)
        rw [recvPingSendPong_eq] at hc
        rw [List.mem_singleton.mp hc]
        exact .pong htype
      | pong =>
        have hout := Option.some.inj hhandle
        rw [recvPong_dv env port _ r hinv.mode] at hout
        split at hout
        · split at hout
          · obtain ⟨rfl, rfl⟩ := Prod.mk.inj hout
            exact .of_mem_send hmode hc
          · obtain ⟨rfl, rfl⟩ := Prod.mk.inj hout
            cases hc
        · obtain ⟨rfl, rfl⟩ := Prod.mk.inj hout
          cases hc
      | dv =>
        simp only [Dv.recv] at hhandle
        split at hhandle
        · obtain ⟨s, -, hannounce⟩ := Option.map_eq_some_iff.mp hhandle
          exact .of_announce hmode hannounce hc
        · obtain ⟨rfl, rfl⟩ := Prod.mk.inj (Option.some.inj hhandle)
          cases hc
      | ls => exact hevent.elim
  | alarm alarm =>
    have hagain {before : List SysCall} {duration : UInt32} (hc : c ∈ before ++ [.setAlarm duration alarm])
        (hbefore : c ∈ before → MayCall env r r' (.alarm alarm) c) : MayCall env r r' (.alarm alarm) c := by
      rcases List.mem_append.mp hc with hc | hc
      · exact hbefore hc
      · exact List.mem_singleton.mp hc ▸ .again duration alarm
    cases alarm with
    | ls => exact absurd rfl hevent
    | ping =>
      obtain ⟨rfl, rfl⟩ := Prod.mk.inj (Option.some.inj hhandle)
      refine hagain hc fun hc => ?_
      obtain ⟨port, hport, rfl⟩ := mem_sendPings hc
      exact .ping hport
    | dv =>
      obtain ⟨rfl, rfl⟩ := Prod.mk.inj (Option.some.inj hhandle)
      exact hagain hc fun hc => .of_mem_send hmode hc
    | port =>
      obtain ⟨⟨s, sent⟩, hrun, heq⟩ := Option.map_eq_some_iff.mp hhandle
      obtain ⟨rfl, rfl⟩ := Prod.mk.inj heq
      refine hagain hc fun hc => ?_
      have hdropped : (dropExpired env r).protocolType = .dv := by
        rw [dropExpired_keeps]
        exact hinv.mode
      rw [updateTimeout_dv env hdropped, refresh] at hrun
      obtain ⟨s', -, hannounce⟩ := Option.map_eq_some_iff.mp hrun
      exact .of_announce hmode hannounce hc

private theorem enters_dv (hlink : r'.neighborTable.get? n = some link) :
    r.neighborTable.get? n = some link ∨ Enters env event n link := by
  cases event with
  | packet port packet =>
    simp only [DvEvent] at hevent
    simp only [handle, recv] at hhandle
    cases htype : PacketType.ofCode (packet.block.memory 0) with
    | none =>
      rw [htype] at hhandle
      obtain ⟨rfl, -⟩ := Prod.mk.inj (Option.some.inj hhandle)
      exact .inl hlink
    | some type =>
      rw [htype] at hevent hhandle
      cases type with
      | data | ping =>
        obtain ⟨rfl, -⟩ := Prod.mk.inj (Option.some.inj hhandle)
        exact .inl hlink
      | pong =>
        have hnoted := (notePong_tables env port (roundTripTime env packet.block.memory) hinv.ports).1 n
        rw [← hevent.2] at hnoted
        have hin (hlink : (notePong env port (ntohs (packet.block.memory.load16 4))
            (roundTripTime env packet.block.memory) r).1.neighborTable.get? n = some link) :
            r.neighborTable.get? n = some link ∨ Enters env (.packet port packet) n link := by
          rw [hnoted] at hlink
          split at hlink
          · rename_i hn
            exact .inr ⟨port, packet, rfl, htype, hn, (Option.some.inj hlink).symm⟩
          · exact .inl hlink
        have hout := Option.some.inj hhandle
        rw [recvPong_dv env port _ r hinv.mode] at hout
        split at hout
        · split at hout
          · obtain ⟨rfl, -⟩ := Prod.mk.inj hout
            exact hin ((update_keepsLinks env ..).neighborTable ▸ hlink)
          · obtain ⟨rfl, -⟩ := Prod.mk.inj hout
            exact hin hlink
        · obtain ⟨rfl, -⟩ := Prod.mk.inj hout
          exact .inl hlink
      | dv =>
        cases hsource : r.neighborTable.get? (ntohs (packet.block.memory.load16 4)) with
        | none =>
          dsimp only at hhandle
          rw [recv_of_not_neighbor env port _ _ r hsource] at hhandle
          obtain ⟨rfl, -⟩ := Prod.mk.inj (Option.some.inj hhandle)
          exact .inl hlink
        | some sender =>
          obtain ⟨_, _, hrun, hkeeps, -⟩ := recv_effect env port packet.block.memory packet.size r sender
            (hinv.sender ha hevent hsource) hsource
          obtain ⟨rfl, -⟩ := Prod.mk.inj (Option.some.inj (hhandle.symm.trans hrun))
          exact .inl (hkeeps.neighborTable ▸ hlink)
      | ls => exact hevent.elim
  | alarm alarm =>
    cases alarm with
    | ls => exact absurd rfl hevent
    | ping | dv =>
      obtain ⟨rfl, -⟩ := Prod.mk.inj (Option.some.inj hhandle)
      exact .inl hlink
    | port =>
      obtain ⟨⟨s, sent⟩, hrun, heq⟩ := Option.map_eq_some_iff.mp hhandle
      obtain ⟨rfl, -⟩ := Prod.mk.inj heq
      obtain ⟨_, _, hrun', hkeeps, -⟩ := updateTimeout_effect env r hinv.mode
        fun d hd => (hinv.tables d).deadline ▸ hd
      obtain ⟨rfl, -⟩ := Prod.mk.inj (Option.some.inj (hrun.symm.trans hrun'))
      rw [hkeeps.neighborTable, dropExpired_neighborTable, Option.filter_eq_some_iff] at hlink
      exact .inl hlink.1

end Dv

section Ls

variable {attached : UInt16 → UInt16} (hmode : r.protocolType = .ls)
    (hevent : WiredEvent attached r.numPorts event)
variable (hhandle : handle env r event = some (r', calls))
include hmode hevent hhandle

private theorem mayCall_ls (hc : c ∈ calls) : MayCall env r r' event c := by
  cases event with
  | packet port packet =>
    have hdv := hevent.1
    simp only [LsEvent] at hdv
    simp only [handle, recv] at hhandle
    cases htype : PacketType.ofCode (packet.block.memory 0) with
    | none =>
      rw [htype] at hhandle
      obtain ⟨rfl, rfl⟩ := Prod.mk.inj (Option.some.inj hhandle)
      cases hc
    | some type =>
      rw [htype] at hdv hhandle
      cases type with
      | data =>
        obtain ⟨rfl, rfl⟩ := Prod.mk.inj (Option.some.inj hhandle)
        obtain ⟨n, link, hlink, rfl⟩ := mem_recvData hc
        exact .forward hlink (.inl htype)
      | ping =>
        obtain ⟨rfl, rfl⟩ := Prod.mk.inj (Option.some.inj hhandle)
        rw [recvPingSendPong_eq] at hc
        rw [List.mem_singleton.mp hc]
        exact .pong htype
      | pong =>
        have hout := Option.some.inj hhandle
        have hnoted := (notePong_keepsMode env port (ntohs (packet.block.memory.load16 4))
          (roundTripTime env packet.block.memory) r).protocolType.trans hmode
        unfold recvPong at hout
        split at hout
        · dsimp only at hout
          split at hout
          · rw [hnoted] at hout
            obtain ⟨rfl, rfl⟩ := Prod.mk.inj hout
            exact .of_updateLS hnoted hc
          · obtain ⟨rfl, rfl⟩ := Prod.mk.inj hout
            cases hc
        · obtain ⟨rfl, rfl⟩ := Prod.mk.inj hout
          cases hc
      | dv => exact absurd rfl hdv
      | ls =>
        have hout := Option.some.inj hhandle
        unfold recvLS at hout
        split at hout
        · obtain ⟨rfl, rfl⟩ := Prod.mk.inj hout
          cases hc
        · obtain ⟨rfl, rfl⟩ := Prod.mk.inj hout
          obtain ⟨n, link, hlink, rfl⟩ := mem_sendLS hc
          exact .forward hlink (.inr htype)
  | alarm alarm =>
    have hdv := hevent.1
    have hagain {before : List SysCall} {duration : UInt32} (hc : c ∈ before ++ [.setAlarm duration alarm])
        (hbefore : c ∈ before → MayCall env r r' (.alarm alarm) c) : MayCall env r r' (.alarm alarm) c := by
      rcases List.mem_append.mp hc with hc | hc
      · exact hbefore hc
      · exact List.mem_singleton.mp hc ▸ .again duration alarm
    cases alarm with
    | dv => exact absurd rfl hdv
    | ping =>
      obtain ⟨rfl, rfl⟩ := Prod.mk.inj (Option.some.inj hhandle)
      refine hagain hc fun hc => ?_
      obtain ⟨port, hport, rfl⟩ := mem_sendPings hc
      exact .ping hport
    | ls =>
      obtain ⟨rfl, rfl⟩ := Prod.mk.inj (Option.some.inj hhandle)
      exact hagain hc fun hc => .of_updateLS hmode hc
    | port =>
      obtain ⟨⟨s, sent⟩, hrun, heq⟩ := Option.map_eq_some_iff.mp hhandle
      obtain ⟨rfl, rfl⟩ := Prod.mk.inj heq
      refine hagain hc fun hc => ?_
      rw [updateTimeout_ls env hmode] at hrun
      have hswept := (sweep_keepsMode env r).protocolType.trans hmode
      split at hrun
      · obtain ⟨rfl, rfl⟩ := Prod.mk.inj (Option.some.inj hrun)
        exact .of_updateLS hswept hc
      · obtain ⟨rfl, rfl⟩ := Prod.mk.inj (Option.some.inj hrun)
        cases hc

private theorem enters_ls (hports : PortsMatch attached r) (hlink : r'.neighborTable.get? n = some link) :
    r.neighborTable.get? n = some link ∨ Enters env event n link := by
  cases LsHandled.of_handle hevent.1 hhandle with
  | kept => exact .inl hlink
  | pong port packet htype =>
    obtain ⟨-, hsource⟩ := hevent.2 port packet rfl htype
    have hnoted := (notePong_tables env port (roundTripTime env packet.block.memory) hports).1 n
    rw [← hsource] at hnoted
    by_cases hdest : r.routerId = ntohs (packet.block.memory.load16 6)
    · have hin : (notePong env port (ntohs (packet.block.memory.load16 4))
          (roundTripTime env packet.block.memory) r).1.neighborTable.get? n = some link := by
        rw [recvPong_ls env port packet.block.memory hmode hdest] at hlink
        split at hlink
        · exact hlink
        · exact hlink
      rw [hnoted] at hin
      split at hin
      · rename_i hn
        exact .inr ⟨port, packet, rfl, htype, hn, (Option.some.inj hin).symm⟩
      · exact .inl hin
    · rw [recvPong, if_neg hdest] at hlink
      exact .inl hlink
  | advertisement port packet =>
    unfold recvLS at hlink
    split at hlink
    · exact .inl hlink
    · exact .inl hlink
  | issued => exact .inl hlink
  | swept _ _ hrun =>
    rw [updateTimeout_ls env hmode] at hrun
    have hswept : (sweep env r).neighborTable.get? n = some link → r.neighborTable.get? n = some link := by
      rw [sweep, dropExpired_neighborTable, Option.filter_eq_some_iff]
      exact And.left
    split at hrun
    · obtain ⟨rfl, -⟩ := Prod.mk.inj (Option.some.inj hrun)
      exact .inl (hswept hlink)
    · obtain ⟨rfl, -⟩ := Prod.mk.inj (Option.some.inj hrun)
      exact .inl (hswept hlink)

end Ls

section Modes

variable {type : ProtocolType} {attached : UInt16 → UInt16} {numPorts routerId : UInt16}

def ModeEvent (type : ProtocolType) (attached : UInt16 → UInt16) (numPorts : UInt16) (event : Event) : Prop :=
  match type with
  | .dv => DvEvent attached numPorts event
  | .ls => WiredEvent attached numPorts event

def ModeReachable (type : ProtocolType) (attached : UInt16 → UInt16) (numPorts routerId : UInt16) (r : Router) :
    Prop :=
  Reaches (ModeEvent type attached numPorts) (Router.init numPorts routerId type) r

theorem ModeReachable.wired (h : ModeReachable type attached numPorts routerId r) :
    WiredReachable attached numPorts routerId r := by
  cases type with
  | dv => exact .inl h
  | ls => exact .inr h

theorem ModeReachable.keeps (h : ModeReachable type attached numPorts routerId r)
    (ha : Attached attached numPorts routerId) :
    r.numPorts = numPorts ∧ r.routerId = routerId ∧ r.protocolType = type := by
  cases type with
  | dv =>
    have hinv := DvInv.run ha h
    exact ⟨hinv.numPorts, hinv.routerId, hinv.mode⟩
  | ls =>
    have hls : LsReachable numPorts routerId r := by
      apply Relation.ReflTransGen.mono ?_ _ _ h
      rintro s s' ⟨env, event, calls, hevent, hhandle⟩
      exact ⟨env, event, calls, hevent.1, hhandle⟩
    exact ⟨(wired_portsMatch ha h).2, hls.mode⟩

private theorem handle_ls (env : Env) (hmode : r.protocolType = .ls) (hevent : LsEvent event) :
    ∃ out, handle env r event = some out := by
  cases event with
  | packet port packet =>
    simp only [LsEvent] at hevent
    simp only [handle, recv]
    cases htype : PacketType.ofCode (packet.block.memory 0) with
    | none => exact ⟨_, rfl⟩
    | some type =>
      rw [htype] at hevent
      cases type with
      | dv => exact absurd rfl hevent
      | data | ping | pong | ls => exact ⟨_, rfl⟩
  | alarm alarm =>
    cases alarm with
    | ping | dv | ls => exact ⟨_, rfl⟩
    | port =>
      rw [handle, handleAlarm, updateTimeout_ls env hmode]
      exact ⟨_, rfl⟩

theorem ModeReachable.handles (h : ModeReachable type attached numPorts routerId r)
    (ha : Attached attached numPorts routerId) (env : Env) (hevent : ModeEvent type attached numPorts event) :
    ∃ r' calls, handle env r event = some (r', calls) ∧ ModeReachable type attached numPorts routerId r' ∧
      (∀ c ∈ calls, MayCall env r r' event c) ∧
      ∀ n link, r'.neighborTable.get? n = some link → r.neighborTable.get? n = some link ∨
        Enters env event n link := by
  obtain ⟨hnum, -, hmode⟩ := h.keeps ha
  have hports := (h.wired.portsMatch ha).1
  cases type with
  | dv =>
    have hinv := DvInv.run ha h
    obtain ⟨r', calls, hhandle, -⟩ := hinv.handle ha env hevent
    exact ⟨r', calls, hhandle, h.tail ⟨env, event, calls, hevent, hhandle⟩,
      fun c => mayCall_dv hinv ha hevent hhandle, fun n link => enters_dv hinv ha hevent hhandle⟩
  | ls =>
    obtain ⟨⟨r', calls⟩, hhandle⟩ := handle_ls env hmode hevent.1
    have hwired : WiredEvent attached r.numPorts event := hnum.symm ▸ hevent
    exact ⟨r', calls, hhandle, h.tail ⟨env, event, calls, hevent, hhandle⟩,
      fun c => mayCall_ls hmode hwired hhandle, fun n link => enters_ls hmode hwired hhandle hports⟩

end Modes

end Comp556.Router
