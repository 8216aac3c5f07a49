import Comp556.Routing.LsFlooding

/-!
# Copies of a packet on each link

`recv_LS` records the number of a packet before it sends the packet on, so a router floods no packet
twice. `update_LS` records nothing, so a router does not know its own packet when it comes back.
-/

namespace Comp556.Ls

/-- A packet put on the link behind a port of a router. -/
structure Transmission where
  router : UInt16
  port : UInt16
  packet : Packet

/-- The packet with number `k` of `s`, put by router `a` on the link behind its port `p`. -/
def Transmission.isOf (s a p : UInt16) (k : UInt64) (x : Transmission) : Bool :=
  x.router = a ∧ x.port = p ∧ sourceOf x.packet.block.memory = s ∧ sequenceOf x.packet.block.memory = k

def transmissions (a : UInt16) (calls : List SysCall) : List Transmission :=
  calls.filterMap fun call =>
    match call with
    | .send port packet => some ⟨a, port, packet⟩
    | .setAlarm _ _ => none

/-- The router knows its neighbours by the ports they are at; it need not know all of them. -/
structure Wired (topo : Topology) (a : UInt16) (r : Router) : Prop where
  routerId : r.routerId = a
  ports : ∀ b link, r.neighborTable.get? b = some link → topo.portTo a b = some link.port

/-- The routers and the copies under way, with the numbers of the packets that router `s` has issued
and all transmissions so far as history. -/
structure SendNet where
  router : UInt16 → Router
  flight : List Carried
  issued : List UInt64
  sent : List Transmission

namespace SendNet

/-- What `issue` leaves: router `a` has run `update_LS`. -/
def issue (topo : Topology) (s : UInt16) (net : SendNet) (env : Env) (a : UInt16) : SendNet where
  router := Function.update net.router a (updateLS env (net.router a)).1
  flight := net.flight ++ transmit topo a (updateLS env (net.router a)).2
  issued :=
    if a = s then net.issued ++ [sequenceOf (lsPacket env (net.router a)).block.memory] else net.issued
  sent := net.sent ++ transmissions a (updateLS env (net.router a)).2

/-- What `deliver` leaves: the destination has run `recv_LS`, and `rest` is still under way. -/
def deliver (topo : Topology) (net : SendNet) (env : Env) (c : Carried) (rest : List Carried) : SendNet where
  router := Function.update net.router c.dest (recvLS env c.port c.packet (net.router c.dest)).1
  flight := rest ++ transmit topo c.dest (recvLS env c.port c.packet (net.router c.dest)).2
  issued := net.issued
  sent := net.sent ++ transmissions c.dest (recvLS env c.port c.packet (net.router c.dest)).2

/-- How often router `a` has put the packet with number `k` of `s` on the link behind its port `p`. -/
def times (s : UInt16) (net : SendNet) (a p : UInt16) (k : UInt64) : Nat :=
  net.sent.countP (Transmission.isOf s a p k)

/-- Every packet that `s` has issued once has been put on each link at most once. -/
def Once (s : UInt16) (net : SendNet) : Prop := ∀ k, net.issued.count k ≤ 1 → ∀ a p, net.times s a p k ≤ 1

/-- A packet that `s` has issued once comes back to `s`, which has recorded no number as high for
itself, and has a neighbour, not behind the port of arrival, to whom it has sent that packet. -/
def ComesBack (s : UInt16) (net : SendNet) (c : Carried) : Prop :=
  c.dest = s ∧ sourceOf c.packet.block.memory = s ∧ isOld (net.router s) c.packet.block.memory = false ∧
    net.issued.count (sequenceOf c.packet.block.memory) ≤ 1 ∧
    ∃ b link, (net.router s).neighborTable.get? b = some link ∧ link.port ≠ c.port ∧
      0 < net.times s s link.port (sequenceOf c.packet.block.memory)

end SendNet

/-- Any router may issue an advertisement, any admitted copy may arrive next, copies may be duplicated
or lost, and routers do other things that record no numbers. -/
inductive SendStep (topo : Topology) (s : UInt16) (admits : SendNet → Carried → Prop) (net : SendNet) :
    SendNet → Prop
  | issue (env : Env) (a : UInt16) : SendStep topo s admits net (net.issue topo s env a)
  | deliver (env : Env) (before after : List Carried) (c : Carried)
      (hflight : net.flight = before ++ c :: after) (hadmits : admits net c) :
      SendStep topo s admits net (net.deliver topo env c (before ++ after))
  | duplicate (c : Carried) (hc : c ∈ net.flight) :
      SendStep topo s admits net { net with flight := c :: net.flight }
  | lose (before after : List Carried) (c : Carried) (hflight : net.flight = before ++ c :: after) :
      SendStep topo s admits net { net with flight := before ++ after }
  | other (a : UInt16) (r' : Router) (hwired : Wired topo a r')
      (hkeeps : ∀ u, r'.maxSequenceNum.get? u = (net.router a).maxSequenceNum.get? u) :
      SendStep topo s admits net { net with router := Function.update net.router a r' }

/-- Nothing has been sent yet, and no packet of `s` is about. -/
structure SendStart (topo : Topology) (s : UInt16) (net : SendNet) : Prop where
  wired : ∀ a, Wired topo a (net.router a)
  flight : ∀ c ∈ net.flight, sourceOf c.packet.block.memory ≠ s
  issued : net.issued = []
  sent : net.sent = []

variable {topo : Topology}

theorem Wired.keeps {a : UInt16} {r r' : Router} (h : Wired topo a r) (hid : r'.routerId = r.routerId)
    (htable : r'.neighborTable = r.neighborTable) : Wired topo a r' :=
  ⟨hid.trans h.routerId, htable ▸ h.ports⟩

theorem Wired.updateLS {a : UInt16} {r : Router} (h : Wired topo a r) (env : Env) :
    Wired topo a (updateLS env r).1 :=
  h.keeps rfl rfl

theorem Wired.recvLS {a : UInt16} {r : Router} (h : Wired topo a r) (env : Env) (port : UInt16)
    (msg : Packet) : Wired topo a (recvLS env port msg r).1 := by
  unfold Ls.recvLS
  split
  · exact h
  · exact h.keeps rfl rfl

private theorem Wired.nodup_ports {a : UInt16} {r : Router} (h : Wired topo a r) :
    (r.neighborTable.entries.map fun link => link.2.port).Nodup := by
  refine List.pairwise_map.mpr ((List.pairwise_map.mp r.neighborTable.nodup).imp_of_mem ?_)
  rintro ⟨b, link⟩ ⟨b', link'⟩ hb hb' hne (hport : link.port = link'.port)
  have hp := h.ports b link ((Table.mem_entries_iff ..).mp hb)
  have hp' := h.ports b' link' ((Table.mem_entries_iff ..).mp hb')
  obtain ⟨-, _, -, hfar⟩ := topo.links a b link.port hp
  obtain ⟨-, _, -, hfar'⟩ := topo.links a b' link'.port hp'
  rw [← hport, hfar] at hfar'
  exact hne (congrArg (fun far => far.1) hfar')

private theorem transmissions_sendLS (a : UInt16) (r : Router) (msg : Packet) (port : UInt16) :
    transmissions a (sendLS r msg port) =
      (r.neighborTable.entries.filter fun link => link.2.port ≠ port).map fun link =>
        ⟨a, link.2.port, msg⟩ := by
  simp [transmissions, sendLS, List.filterMap_map]

/-- `send_LS` puts at most one copy on each link. -/
private theorem count_sendLS_le {a : UInt16} {r : Router} (h : Wired topo a r) (msg : Packet)
    (port s a' p : UInt16) (k : UInt64) :
    (transmissions a (sendLS r msg port)).countP (Transmission.isOf s a' p k) ≤ 1 := by
  have hports := List.nodup_iff_count_le_one.mp h.nodup_ports p
  rw [transmissions_sendLS, List.countP_map]
  refine (List.Sublist.countP_le List.filter_sublist).trans (le_trans ?_ hports)
  rw [List.count, List.countP_map]
  apply List.countP_mono_left
  intro link _ hlink
  simpa [Transmission.isOf] using (of_decide_eq_true hlink).2.1

private theorem count_sendLS_pos {a : UInt16} {r : Router} (msg : Packet) {port s a' p : UInt16} {k : UInt64} :
    0 < (transmissions a (sendLS r msg port)).countP (Transmission.isOf s a' p k) ↔
      a = a' ∧ sourceOf msg.block.memory = s ∧ sequenceOf msg.block.memory = k ∧
        ∃ b link, r.neighborTable.get? b = some link ∧ link.port ≠ port ∧ link.port = p := by
  rw [transmissions_sendLS, List.countP_pos_iff]
  simp only [List.mem_map, List.mem_filter, Transmission.isOf, decide_eq_true_eq]
  constructor
  · rintro ⟨_, ⟨⟨b, link⟩, ⟨hmem, hne⟩, rfl⟩, ha, hp, hs, hk⟩
    exact ⟨ha, hs, hk, b, link, (Table.mem_entries_iff ..).mp hmem, hne, hp⟩
  · rintro ⟨ha, hs, hk, b, link, hget, hne, hp⟩
    exact ⟨_, ⟨(b, link), ⟨(Table.mem_entries_iff ..).mpr hget, hne⟩, rfl⟩, ha, hp, hs, hk⟩

variable {s : UInt16} {net net' : SendNet}

/-- The router discards the packets of `s` up to the number `k`. -/
def Recorded (s : UInt16) (r : Router) (k : UInt64) : Prop :=
  ∃ newest, r.maxSequenceNum.get? s = some newest ∧ k ≤ newest

private theorem isOld_iff_recorded {r : Router} {msg : Memory} :
    isOld r msg = true ↔ Recorded (sourceOf msg) r (sequenceOf msg) := isOld_iff

/-- What a run keeps in which no packet of `s` comes back: whoever has sent one on has recorded its
number, and only issued numbers are about. -/
structure SendInv (topo : Topology) (s : UInt16) (net : SendNet) : Prop where
  wired : ∀ a, Wired topo a (net.router a)
  recorded : ∀ x ∈ net.sent, x.router ≠ s → sourceOf x.packet.block.memory = s →
    Recorded s (net.router x.router) (sequenceOf x.packet.block.memory)
  sent : ∀ x ∈ net.sent, sourceOf x.packet.block.memory = s →
    sequenceOf x.packet.block.memory ∈ net.issued
  flight : ∀ c ∈ net.flight, sourceOf c.packet.block.memory = s →
    sequenceOf c.packet.block.memory ∈ net.issued
  once : net.Once s

theorem SendInv.start (h : SendStart topo s net) : SendInv topo s net where
  wired := h.wired
  recorded := by simp [h.sent]
  sent := by simp [h.sent]
  flight c hc hs := absurd hs (h.flight c hc)
  once := by simp [SendNet.Once, SendNet.times, h.sent]

private theorem SendInv.times_of_not_issued (h : SendInv topo s net) {k : UInt64} (hk : k ∉ net.issued)
    (a p : UInt16) : net.times s a p k = 0 := by
  apply List.countP_eq_zero.mpr
  intro x hx hof
  obtain ⟨-, -, hs, rfl⟩ := of_decide_eq_true hof
  exact hk (h.sent x hx hs)

private theorem SendInv.times_of_new (h : SendInv topo s net) {v : UInt16} (hv : v ≠ s) {msg : Memory}
    (hs : sourceOf msg = s) (hnew : isOld (net.router v) msg = false) (p : UInt16) :
    net.times s v p (sequenceOf msg) = 0 := by
  apply List.countP_eq_zero.mpr
  intro x hx hof
  obtain ⟨hrouter, -, hxs, hk⟩ := of_decide_eq_true hof
  have hrec := h.recorded x hx (hrouter ▸ hv) hxs
  rw [hrouter, hk, ← hs] at hrec
  rw [isOld_iff_recorded.mpr hrec] at hnew
  cases hnew

private theorem times_issue (env : Env) (a a' p : UInt16) (k : UInt64) :
    (net.issue topo s env a).times s a' p k = net.times s a' p k +
      (transmissions a (sendLS (net.router a) (lsPacket env (net.router a)) specialPort)).countP
        (Transmission.isOf s a' p k) :=
  List.countP_append

theorem SendInv.sourceOf_issued (h : SendInv topo s net) (env : Env) (a : UInt16) :
    sourceOf (lsPacket env (net.router a)).block.memory = a := by
  rw [sourceOf_lsPacket, (h.wired a).routerId]

private theorem SendInv.once_issue (h : SendInv topo s net) (env : Env) (a : UInt16) :
    (net.issue topo s env a).Once s := by
  intro k hk a' p
  rw [times_issue]
  rcases Nat.eq_zero_or_pos ((transmissions a (sendLS (net.router a) (lsPacket env (net.router a))
    specialPort)).countP (Transmission.isOf s a' p k)) with hnone | hsome
  · rw [hnone]
    refine h.once k (le_trans (List.Sublist.count_le k ?_) hk) a' p
    simp only [SendNet.issue]
    split
    · exact List.sublist_append_left _ _
    · exact .refl _
  · obtain ⟨-, hs, hnumber, -⟩ := (count_sendLS_pos _).mp hsome
    have ha : a = s := (h.sourceOf_issued env a).symm.trans hs
    have hnew : k ∉ net.issued := by
      simp only [SendNet.issue, ha, if_true, List.count_append] at hk
      rw [ha] at hnumber
      rw [hnumber, List.count_singleton_self] at hk
      exact List.count_eq_zero.mp (by omega)
    rw [h.times_of_not_issued hnew, Nat.zero_add]
    exact count_sendLS_le (h.wired a) _ _ _ _ _ _

private theorem mem_transmissions_sendLS {a : UInt16} {r : Router} {msg : Packet} {port : UInt16}
    {x : Transmission} (hx : x ∈ transmissions a (sendLS r msg port)) : x.router = a ∧ x.packet = msg := by
  rw [transmissions_sendLS] at hx
  obtain ⟨link, -, rfl⟩ := List.mem_map.mp hx
  exact ⟨rfl, rfl⟩

private theorem mem_transmit {a : UInt16} {calls : List SysCall} {c : Carried}
    (hc : c ∈ transmit topo a calls) :
    ∃ x ∈ transmissions a calls, x.packet = c.packet := by
  obtain ⟨call, hcall, hout⟩ := List.mem_filterMap.mp hc
  cases call with
  | setAlarm _ _ => cases hout
  | send port packet =>
    obtain rfl := Option.some.inj hout
    exact ⟨⟨a, port, packet⟩, List.mem_filterMap.mpr ⟨_, hcall, rfl⟩, rfl⟩

private theorem mem_issued (env : Env) (a : UInt16) {k : UInt64} (hk : k ∈ net.issued) :
    k ∈ (net.issue topo s env a).issued := by
  simp only [SendNet.issue]
  split
  · exact List.mem_append_left _ hk
  · exact hk

/-- A packet of `s` that an issue sends is the one that `s` has just issued. -/
private theorem SendInv.issued_own (h : SendInv topo s net) (env : Env) (a : UInt16) {packet : Packet}
    (hpacket : packet = lsPacket env (net.router a)) (hs : sourceOf packet.block.memory = s) :
    a = s ∧ sequenceOf packet.block.memory ∈ (net.issue topo s env a).issued := by
  have ha : a = s := by rw [← h.sourceOf_issued env a, ← hpacket, hs]
  exact ⟨ha, by simp [SendNet.issue, ha, hpacket]⟩

theorem SendInv.issue (h : SendInv topo s net) (env : Env) (a : UInt16) :
    SendInv topo s (net.issue topo s env a) where
  wired := (Function.forall_update_iff net.router (Wired topo)).mpr
    ⟨(h.wired a).updateLS env, fun v _ => h.wired v⟩
  recorded x hx hrouter hs := by
    rcases List.mem_append.mp hx with hx | hx
    · have hmax : ∀ v, ((net.issue topo s env a).router v).maxSequenceNum = (net.router v).maxSequenceNum :=
        (Function.forall_update_iff net.router fun v r =>
          r.maxSequenceNum = (net.router v).maxSequenceNum).mpr ⟨rfl, fun _ _ => rfl⟩
      rw [Recorded, hmax]
      exact h.recorded x hx hrouter hs
    · obtain ⟨hxa, hpacket⟩ := mem_transmissions_sendLS hx
      exact absurd (hxa.trans (h.issued_own env a hpacket hs).1) hrouter
  sent x hx hs := by
    rcases List.mem_append.mp hx with hx | hx
    · exact mem_issued env a (h.sent x hx hs)
    · exact (h.issued_own env a (mem_transmissions_sendLS hx).2 hs).2
  flight c hc hs := by
    rcases List.mem_append.mp hc with hc | hc
    · exact mem_issued env a (h.flight c hc hs)
    · obtain ⟨x, hx, hsame⟩ := mem_transmit hc
      exact (h.issued_own env a (hsame.symm.trans (mem_transmissions_sendLS hx).2) hs).2
  once := h.once_issue env a

private theorem sent_of_new (env : Env) {c : Carried}
    (hnew : isOld (net.router c.dest) c.packet.block.memory = false) :
    (recvLS env c.port c.packet (net.router c.dest)).2 = sendLS (net.router c.dest) c.packet c.port := by
  obtain ⟨r', htable, hcalls⟩ := recvLS_calls env c.port c.packet (net.router c.dest) hnew
  rw [hcalls, sendLS, htable, sendLS]

private theorem times_deliver (env : Env) {c : Carried} (rest : List Carried)
    (hnew : isOld (net.router c.dest) c.packet.block.memory = false) (a p : UInt16) (k : UInt64) :
    (net.deliver topo env c rest).times s a p k = net.times s a p k +
      (transmissions c.dest (sendLS (net.router c.dest) c.packet c.port)).countP
        (Transmission.isOf s a p k) := by
  simp only [SendNet.times, SendNet.deliver, sent_of_new env hnew, List.countP_append]

private theorem deliver_old (env : Env) {c : Carried} (rest : List Carried)
    (hold : isOld (net.router c.dest) c.packet.block.memory = true) :
    net.deliver topo env c rest = { net with flight := rest } := by
  simp [SendNet.deliver, recvLS_of_old env c.port hold, transmit, transmissions]

private theorem recorded_of_new (env : Env) (port : UInt16) {msg : Packet} {r : Router}
    (hnew : isOld r msg.block.memory = false) :
    Recorded (sourceOf msg.block.memory) (recvLS env port msg r).1 (sequenceOf msg.block.memory) := by
  refine ⟨sequenceOf msg.block.memory, ?_, UInt64.le_refl _⟩
  rw [recvLS_newest, if_pos ⟨rfl, hnew⟩]

theorem Recorded.recvLS {s : UInt16} {r : Router} {k : UInt64} (h : Recorded s r k) (env : Env)
    (port : UInt16) (msg : Packet) : Recorded s (recvLS env port msg r).1 k := by
  obtain ⟨newest, hget, hle⟩ := h
  rw [Recorded, recvLS_newest]
  split
  case isTrue hacc =>
    have hlate := newer_of_not_old hacc.2 (hacc.1 ▸ hget)
    exact ⟨_, rfl, UInt64.le_trans hle (UInt64.le_of_lt hlate)⟩
  case isFalse => exact ⟨newest, hget, hle⟩

/-- A delivery repeats a transmission exactly if a packet comes back to `s`. -/
private theorem SendInv.once_deliver_iff (h : SendInv topo s net) (env : Env) (c : Carried)
    (rest : List Carried) :
    (net.deliver topo env c rest).Once s ↔ ¬ net.ComesBack s c := by
  cases hold : isOld (net.router c.dest) c.packet.block.memory with
  | true =>
    rw [deliver_old env rest hold]
    apply iff_of_true h.once
    rintro ⟨rfl, -, hnew, -⟩
    rw [hold] at hnew
    cases hnew
  | false =>
    constructor
    · rintro honce ⟨hdest, hs, -, hissued, b, link, hget, hport, hsent⟩
      have hagain : 0 < (transmissions c.dest (sendLS (net.router c.dest) c.packet c.port)).countP
          (Transmission.isOf s s link.port (sequenceOf c.packet.block.memory)) :=
        (count_sendLS_pos _).mpr ⟨hdest, hs, rfl, b, link, hdest ▸ hget, hport, rfl⟩
      have hle := honce _ hissued s link.port
      rw [times_deliver env rest hold] at hle
      omega
    · intro hfresh k hk a p
      rw [times_deliver env rest hold]
      rcases Nat.eq_zero_or_pos ((transmissions c.dest (sendLS (net.router c.dest) c.packet
        c.port)).countP (Transmission.isOf s a p k)) with hnone | hsome
      · rw [hnone]
        exact h.once k hk a p
      · obtain ⟨rfl, hs, rfl, b, link, hget, hport, rfl⟩ := (count_sendLS_pos _).mp hsome
        have hzero : net.times s c.dest link.port (sequenceOf c.packet.block.memory) = 0 := by
          by_cases hdest : c.dest = s
          · by_contra hsent
            exact hfresh ⟨hdest, hs, hdest ▸ hold, hk, b, link, hdest ▸ hget, hport,
              Nat.pos_of_ne_zero (hdest ▸ hsent)⟩
          · exact h.times_of_new hdest hs hold _
        rw [hzero, Nat.zero_add]
        exact count_sendLS_le (h.wired c.dest) _ _ _ _ _ _

private theorem mem_sent_deliver (env : Env) {c : Carried} {rest : List Carried}
    (hnew : isOld (net.router c.dest) c.packet.block.memory = false) {x : Transmission}
    (hx : x ∈ (net.deliver topo env c rest).sent) :
    x ∈ net.sent ∨ x.router = c.dest ∧ x.packet = c.packet := by
  rcases List.mem_append.mp hx with hx | hx
  · exact .inl hx
  · rw [sent_of_new env hnew] at hx
    exact .inr (mem_transmissions_sendLS hx)

private theorem mem_flight_deliver (env : Env) {c : Carried} {rest : List Carried}
    (hnew : isOld (net.router c.dest) c.packet.block.memory = false) {c' : Carried}
    (hc' : c' ∈ (net.deliver topo env c rest).flight) : c' ∈ rest ∨ c'.packet = c.packet := by
  rcases List.mem_append.mp hc' with hc' | hc'
  · exact .inl hc'
  · obtain ⟨x, hx, hsame⟩ := mem_transmit hc'
    rw [sent_of_new env hnew] at hx
    exact .inr (hsame.symm.trans (mem_transmissions_sendLS hx).2)

private theorem mem_rest {before after : List Carried} {c c' : Carried}
    (hflight : net.flight = before ++ c :: after) (hc' : c' ∈ before ++ after) : c' ∈ net.flight := by
  rw [hflight]
  exact List.Sublist.subset (.append_left (List.sublist_cons_self _ _) _) hc'

private theorem SendInv.deliver_new (h : SendInv topo s net) (env : Env) {before after : List Carried}
    {c : Carried} (hflight : net.flight = before ++ c :: after) (hfresh : ¬ net.ComesBack s c)
    (hnew : isOld (net.router c.dest) c.packet.block.memory = false) :
    SendInv topo s (net.deliver topo env c (before ++ after)) where
  wired := (Function.forall_update_iff net.router (Wired topo)).mpr
    ⟨(h.wired c.dest).recvLS env c.port c.packet, fun v _ => h.wired v⟩
  recorded x hx hrouter hs := by
    rcases mem_sent_deliver env hnew hx with hx | ⟨hdest, hpacket⟩
    · have hkept : ∀ v, Recorded s (net.router v) (sequenceOf x.packet.block.memory) →
          Recorded s ((net.deliver topo env c (before ++ after)).router v)
            (sequenceOf x.packet.block.memory) :=
        (Function.forall_update_iff net.router fun v r =>
          Recorded s (net.router v) (sequenceOf x.packet.block.memory) →
            Recorded s r (sequenceOf x.packet.block.memory)).mpr
          ⟨fun hrec => hrec.recvLS env c.port c.packet, fun _ _ hrec => hrec⟩
      exact hkept x.router (h.recorded x hx hrouter hs)
    · simp only [SendNet.deliver, hdest, Function.update_self, hpacket]
      rw [hpacket] at hs
      exact hs ▸ recorded_of_new env c.port hnew
  sent x hx hs := by
    rcases mem_sent_deliver env hnew hx with hx | ⟨-, hpacket⟩
    · exact h.sent x hx hs
    · rw [hpacket] at hs ⊢
      exact h.flight c (by simp [hflight]) hs
  flight c' hc' hs := by
    rcases mem_flight_deliver env hnew hc' with hc' | hpacket
    · exact h.flight c' (mem_rest hflight hc') hs
    · rw [hpacket] at hs ⊢
      exact h.flight c (by simp [hflight]) hs
  once := (h.once_deliver_iff env c (before ++ after)).mpr hfresh

theorem SendInv.deliver (h : SendInv topo s net) (env : Env) {before after : List Carried} {c : Carried}
    (hflight : net.flight = before ++ c :: after) (hfresh : ¬ net.ComesBack s c) :
    SendInv topo s (net.deliver topo env c (before ++ after)) := by
  cases hold : isOld (net.router c.dest) c.packet.block.memory with
  | true =>
    rw [deliver_old env _ hold]
    exact ⟨h.wired, h.recorded, h.sent, fun c' hc' => h.flight c' (mem_rest hflight hc'), h.once⟩
  | false => exact h.deliver_new env hflight hfresh hold

/-- No packet of `s` comes back. -/
def NoReturn (s : UInt16) (net : SendNet) (c : Carried) : Prop := ¬ net.ComesBack s c

theorem SendInv.step (h : SendInv topo s net) (hstep : SendStep topo s (NoReturn s) net net') :
    SendInv topo s net' := by
  cases hstep with
  | issue env a => exact h.issue env a
  | deliver env before after c hflight hadmits => exact h.deliver env hflight hadmits
  | duplicate c hc =>
    exact ⟨h.wired, h.recorded, h.sent, fun c' hc' => h.flight c' ((List.mem_cons.mp hc').elim
      (fun heq => heq ▸ hc) id), h.once⟩
  | lose before after c hflight =>
    exact ⟨h.wired, h.recorded, h.sent, fun c' hc' => h.flight c' (mem_rest hflight hc'), h.once⟩
  | other a r' hwired hkeeps =>
    have hmax : ∀ v u, (Function.update net.router a r' v).maxSequenceNum.get? u =
        (net.router v).maxSequenceNum.get? u :=
      (Function.forall_update_iff net.router fun v r => ∀ u, r.maxSequenceNum.get? u =
        (net.router v).maxSequenceNum.get? u).mpr ⟨hkeeps, fun _ _ _ => rfl⟩
    refine ⟨?_, fun x hx hrouter hs => ?_, h.sent, h.flight, h.once⟩
    · exact (Function.forall_update_iff net.router (Wired topo)).mpr ⟨hwired, fun v _ => h.wired v⟩
    · rw [Recorded, hmax]
      exact h.recorded x hx hrouter hs

/-- As long as no packet of `s` comes back to `s`, every packet that `s` has issued once has been put on
each link at most once, by each router; and the next delivery keeps this so exactly if it is not such a
return. -/
theorem once_per_link_iff {start : SendNet} (hstart : SendStart topo s start)
    (hrun : Relation.ReflTransGen (SendStep topo s (NoReturn s)) start net) :
    net.Once s ∧ ∀ env before c after, net.flight = before ++ c :: after →
      ((net.deliver topo env c (before ++ after)).Once s ↔ NoReturn s net c) := by
  have h := run_invariant (SendInv topo s) hrun (.start hstart) fun _ _ h hstep => h.step hstep
  exact ⟨h.once, fun env before c after _ => h.once_deliver_iff env c (before ++ after)⟩

def triangleTopology : Topology where
  numPorts _ := 2
  portTo a b :=
    if (a, b) ∈ [((1 : UInt16), (2 : UInt16)), (2, 1), (3, 1)] then some 0
    else if (a, b) ∈ [((1 : UInt16), (3 : UInt16)), (2, 3), (3, 2)] then some 1
    else none
  farEnd a p :=
    if a = 1 then if p = 0 then (2, 0) else (3, 0)
    else if a = 2 then if p = 0 then (1, 0) else (3, 1)
    else if p = 0 then (1, 1) else (2, 1)
  links a b p h := by
    split at h
    case isTrue hab =>
      obtain rfl := Option.some.inj h
      simp only [List.mem_cons, Prod.mk.injEq, List.not_mem_nil, or_false] at hab
      rcases hab with ⟨rfl, rfl⟩ | ⟨rfl, rfl⟩ | ⟨rfl, rfl⟩ <;> decide
    case isFalse =>
      split at h
      case isTrue hab =>
        obtain rfl := Option.some.inj h
        simp only [List.mem_cons, Prod.mk.injEq, List.not_mem_nil, or_false] at hab
        rcases hab with ⟨rfl, rfl⟩ | ⟨rfl, rfl⟩ | ⟨rfl, rfl⟩ <;> decide
      case isFalse => cases h

def triangleStart : SendNet where
  router a :=
    { neighborsRouter (if a = 1 then [(2, 5), (3, 5)] else if a = 2 then [(1, 5), (3, 5)]
        else if a = 3 then [(1, 5), (2, 5)] else []) with routerId := a }
  flight := []
  issued := []
  sent := []

private theorem triangleStart_start : SendStart triangleTopology 1 triangleStart where
  wired a := by
    have hentries : ∀ e ∈ (triangleStart.router a).neighborTable.entries,
        triangleTopology.portTo a e.1 = some e.2.port := by
      by_cases h1 : a = 1
      · subst h1
        decide
      by_cases h2 : a = 2
      · subst h2
        decide
      by_cases h3 : a = 3
      · subst h3
        decide
      simp [triangleStart, neighborsRouter, h1, h2, h3, Table.empty]
    exact ⟨rfl, fun b link h => hentries (b, link) ((Table.mem_entries_iff ..).mpr h)⟩
  flight := by simp [triangleStart]
  issued := rfl
  sent := rfl

def trianglePacket : Packet := lsPacket (sampleEnv 1) (triangleStart.router 1)

def triangleIssued : SendNet := triangleStart.issue triangleTopology 1 (sampleEnv 1) 1

def triangleForwarded : SendNet :=
  triangleIssued.deliver triangleTopology (sampleEnv 2) ⟨2, 0, trianglePacket⟩ [⟨3, 0, trianglePacket⟩]

def triangleReturning : SendNet :=
  triangleForwarded.deliver triangleTopology (sampleEnv 3) ⟨3, 1, trianglePacket⟩ [⟨3, 0, trianglePacket⟩]

def triangleReturned : SendNet :=
  triangleReturning.deliver triangleTopology (sampleEnv 4) ⟨1, 1, trianglePacket⟩ [⟨3, 0, trianglePacket⟩]

private theorem triangleForwarded_run {admits : SendNet → Carried → Prop}
    (hadmits : admits triangleIssued ⟨2, 0, trianglePacket⟩) :
    Relation.ReflTransGen (SendStep triangleTopology 1 admits) triangleStart triangleForwarded :=
  .tail (.single (.issue (sampleEnv 1) 1))
    (.deliver (sampleEnv 2) [⟨3, 0, trianglePacket⟩] [] ⟨2, 0, trianglePacket⟩ rfl hadmits)

theorem triangle_once_per_link :
    triangleForwarded.times 1 1 0 0 = 1 ∧ triangleForwarded.Once 1 := by
  have hrun : Relation.ReflTransGen (SendStep triangleTopology 1 (NoReturn 1)) triangleStart
      triangleForwarded :=
    triangleForwarded_run fun h => absurd h.1 (by decide)
  exact ⟨by decide +kernel, (once_per_link_iff triangleStart_start hrun).1⟩

/-- Router 1 floods its own packet a second time when router 3 sends it back. -/
theorem triangle_twice_per_link :
    SendStart triangleTopology 1 triangleStart ∧
      Relation.ReflTransGen (SendStep triangleTopology 1 fun _ _ => True) triangleStart triangleReturned ∧
      triangleReturned.issued = [0] ∧ triangleReturned.times 1 1 0 0 = 2 ∧ ¬ triangleReturned.Once 1 := by
  have htwice : triangleReturned.times 1 1 0 0 = 2 := by decide +kernel
  have honce : triangleReturned.issued.count 0 ≤ 1 := by decide +kernel
  refine ⟨triangleStart_start, ?_, by decide +kernel, htwice, fun h => absurd (h 0 honce 1 0) (by omega)⟩
  exact .tail (.tail (triangleForwarded_run trivial)
    (.deliver (sampleEnv 3) [⟨3, 0, trianglePacket⟩] [] ⟨3, 1, trianglePacket⟩ rfl trivial))
    (.deliver (sampleEnv 4) [⟨3, 0, trianglePacket⟩] [] ⟨1, 1, trianglePacket⟩ rfl trivial)

end Comp556.Ls
