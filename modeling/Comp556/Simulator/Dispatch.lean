import Comp556.Foundation.Run
import Comp556.Simulator.Simulator

/-!
# What a dispatch pushes

A dispatch takes nothing out of `event_q`. The handlers push transmissions and alarms; a reception
is pushed only by the transmission of its packet.
-/

namespace Comp556.Sim

variable {queue : EventQueue} {R : Type}

def Event.IsRecv (e : Event) : Prop := ∃ dest dport pkt origin, e.body = .recvPkt dest dport pkt origin

namespace Simulator

/-- `sim'` is `sim` after the events `news` have been pushed. Unless a time went past its range, none
of them is due before now. -/
structure Grown (sim : Simulator queue R) (news : List Event) (sim' : Simulator queue R) : Prop where
  eventQ : sim'.eventQ = queue.pushAll news sim.eventQ
  globalTime : sim'.globalTime = sim.globalTime
  created : sim'.created = sim.created + news.length
  addresses : news.map Event.address = List.range' sim.created news.length
  inRange : sim'.overflowed = false → sim.overflowed = false
  due : sim'.overflowed = false → ∀ e ∈ news, sim.globalTime ≤ e.time

variable {sim sim' sim'' : Simulator queue R} {news more : List Event}

theorem Grown.none (hqueue : sim'.eventQ = sim.eventQ) (htime : sim'.globalTime = sim.globalTime)
    (hcreated : sim'.created = sim.created) (hover : sim'.overflowed = sim.overflowed) :
    Grown sim [] sim' where
  eventQ := hqueue
  globalTime := htime
  created := hcreated
  addresses := rfl
  inRange h := hover ▸ h
  due _ := by simp

theorem Grown.refl (sim : Simulator queue R) : Grown sim [] sim := .none rfl rfl rfl rfl

theorem Grown.trans (h : Grown sim news sim') (h' : Grown sim' more sim'') :
    Grown sim (news ++ more) sim'' where
  eventQ := by rw [h'.eventQ, h.eventQ, queue.pushAll_append]
  globalTime := h'.globalTime.trans h.globalTime
  created := by rw [h'.created, h.created, List.length_append, Nat.add_assoc]
  addresses := by
    rw [List.map_append, h.addresses, h'.addresses, h.created, List.length_append, ← List.range'_append_1]
  inRange hover := h.inRange (h'.inRange hover)
  due hover e he := by
    rcases List.mem_append.mp he with he | he
    · exact h.due (h'.inRange hover) e he
    · exact h.globalTime ▸ h'.due hover e he

theorem grown_push (sim : Simulator queue R) {time : UInt32} (htime : sim.globalTime ≤ time)
    (body : EventBody) : Grown sim [⟨sim.created, time, body⟩] (sim.push time body) where
  eventQ := rfl
  globalTime := rfl
  created := rfl
  addresses := rfl
  inRange h := h
  due _ := by simpa using htime

theorem grown_pushAfter (sim : Simulator queue R) (duration : UInt32) (body : EventBody) :
    Grown sim [⟨sim.created, sim.globalTime + duration, body⟩]
      (sim.pushAfter sim.globalTime duration body) where
  eventQ := rfl
  globalTime := rfl
  created := rfl
  addresses := rfl
  inRange h := (Bool.or_eq_false_iff.mp h).1
  due h := by
    have hfit := of_decide_eq_false (Bool.or_eq_false_iff.mp h).2
    simp only [List.mem_singleton, forall_eq, UInt32.le_iff_toNat_le, UInt32.toNat_add]
    omega

/-- `sim'` is `sim` after pushes that hold no arrival of a packet. -/
def Handled (sim sim' : Simulator queue R) : Prop :=
  ∃ news, Grown sim news sim' ∧ ∀ e ∈ news, ¬ e.IsRecv

theorem Handled.of_grown {e : Event} (h : Grown sim [e] sim') (he : ¬ e.IsRecv) : Handled sim sim' :=
  ⟨[e], h, by simpa using he⟩

theorem Handled.trans (h : Handled sim sim') (h' : Handled sim' sim'') : Handled sim sim'' := by
  obtain ⟨news, hgrown, hnews⟩ := h
  obtain ⟨more, hgrown', hmore⟩ := h'
  refine ⟨news ++ more, hgrown.trans hgrown', fun e he => ?_⟩
  rcases List.mem_append.mp he with he | he
  · exact hnews e he
  · exact hmore e he

private theorem handled_call {this : Nat} {c : SysCall} (h : sim.call this c = some sim') :
    Handled sim sim' := by
  cases c with
  | setAlarm duration alarm =>
    obtain rfl := Option.some.inj h
    exact .of_grown (sim.grown_pushAfter duration _) (by simp [Event.IsRecv])
  | send port pkt =>
    simp only [call, send, Option.bind_eq_bind, Option.bind_eq_some_iff, pure] at h
    obtain ⟨_, -, ln, -, _, -, _, -, _, -, rcptPort, -, hpush⟩ := h
    obtain rfl := Option.some.inj hpush
    exact .of_grown (sim.grown_push (UInt32.le_refl _) _) (by simp [Event.IsRecv])

theorem handled_calls {this : Nat} {l : List SysCall} (h : sim.calls this l = some sim') :
    Handled sim sim' :=
  foldlM_invariant (Handled sim) h ⟨[], .refl sim, by simp⟩ fun _ _ _ hs hcall =>
    hs.trans (handled_call hcall)

private theorem handled_afterHandler {this : Nat} {out : R × List SysCall}
    (h : sim.afterHandler this out = some sim') : Handled sim sim' := by
  have hrp : Handled sim (sim.setRp this out.1) := ⟨[], .none rfl rfl rfl rfl, by simp⟩
  exact hrp.trans (handled_calls h)

variable {protocol : RoutingProtocol R} {chance : Chance}

private theorem handled_recvPacket {this : Nat} {port : UInt16} {pkt : Packet}
    (h : sim.recvPacket protocol chance this port pkt = some sim') : Handled sim sim' := by
  simp only [recvPacket, Option.bind_eq_bind, Option.bind_eq_some_iff] at h
  obtain ⟨_, -, _, -, hafter⟩ := h
  exact handled_afterHandler hafter

private theorem handled_alarmFires {r : Nat} {data : Alarm}
    (h : sim.alarmFires protocol chance r data = some sim') : Handled sim sim' := by
  simp only [alarmFires, Option.bind_eq_bind, Option.bind_eq_some_iff] at h
  obtain ⟨_, -, _, -, hafter⟩ := h
  exact handled_afterHandler hafter

private theorem handled_modifyLink {l : Nat} {f : Link → Link} (h : sim.modifyLink l f = some sim') :
    Handled sim sim' := by
  obtain ⟨link, -, rfl⟩ := Option.map_eq_some_iff.mp h
  exact ⟨[], .none rfl rfl rfl rfl, by simp⟩

/-- The arrival that the dispatch of a transmission pushes, unless the packet is lost. -/
def transmitted (sim : Simulator queue R) (chance : Chance) (e : Event) : Option Event :=
  match e.body with
  | .xmitPktOnLink dest dport ln pkt =>
    (sim.links[ln]?).bind fun link =>
      if passes chance link then
        some ⟨sim.created, e.time + link.delay, .recvPkt dest dport pkt ⟨e.address, ln⟩⟩
      else none
  | _ => none

theorem dispatch_grown {e : Event} (hnow : sim.globalTime = e.time)
    (h : sim.dispatch protocol chance e = some sim') :
    ∃ news, Grown sim news sim' ∧ ∀ n ∈ news, n.IsRecv → sim.transmitted chance e = some n := by
  have of_handled : Handled sim sim' →
      ∃ news, Grown sim news sim' ∧ ∀ n ∈ news, n.IsRecv → sim.transmitted chance e = some n :=
    fun ⟨news, hgrown, hnews⟩ => ⟨news, hgrown, fun n hn hrecv => absurd hrecv (hnews n hn)⟩
  unfold dispatch at h
  split at h
  case h_5 dest dport ln pkt hbody =>
    obtain ⟨link, hlink, hout⟩ := Option.map_eq_some_iff.mp h
    split at hout
    case isTrue hpass =>
      subst hout
      refine ⟨_, hnow ▸ grown_pushAfter sim link.delay _, fun n hn _ => ?_⟩
      rw [List.mem_singleton.mp hn, transmitted, hbody]
      simp [hlink, hpass]
    case isFalse =>
      subst hout
      exact ⟨[], .refl sim, by simp⟩
  case h_4 => exact of_handled (handled_recvPacket h)
  case h_6 => exact of_handled (handled_recvPacket h)
  case h_7 => exact of_handled (handled_alarmFires h)
  all_goals exact of_handled (handled_modifyLink h)

end Simulator

end Comp556.Sim
