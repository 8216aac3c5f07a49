import Comp556.Foundation.Run
import Comp556.Foundation.StopAndWait
import Comp556.Transfer.Endpoints
import Mathlib.Data.Multiset.AddSub

/-!
# The two programs and their network

`sendfile` and `recvfile` over a network that loses, repeats and reorders datagrams but does not alter
them. The two programs refine stop and wait over the chunks of the file followed by the end packet,
with a window of one turn of the sequence numbers.
-/

namespace Comp556.Transfer

/-- A datagram under way and the chunk it is about: a packet of that chunk, or the acknowledgement of
one. -/
structure Message where
  chunk : Nat
  bytes : List UInt8
  deriving DecidableEq

/-- Both programs, the datagrams under way, and the data of every `fwrite` of the receiver so far. -/
structure Network where
  sender : Sender
  receiver : Receiver
  data : Multiset Message
  acks : Multiset Message
  written : List (List UInt8)

namespace Network

def start (names : Names) (file : List UInt8) (fresh : Block dataSize) (freshAck : Block ackSize)
    (files : List UInt8 → Option (List UInt8)) : Network :=
  ⟨Sender.start names file fresh freshAck, Receiver.start files, 0, 0, []⟩

def send (net : Network) : Network :=
  { net with
    sender := net.sender.sent
    data := ⟨net.sender.chunkIndex, net.sender.packet⟩ ::ₘ net.data }

def deliverData (net : Network) (m : Message) : Network :=
  let out := net.receiver.receive m.bytes
  { net with
    receiver := out.receiver
    data := net.data.erase m
    acks := (out.acks.map (Message.mk m.chunk) : Multiset Message) + net.acks
    written := net.written ++ out.writes }

@[simp] theorem deliverData_receiver (net : Network) (m : Message) :
    (net.deliverData m).receiver = (net.receiver.receive m.bytes).receiver := rfl

@[simp] theorem deliverData_written (net : Network) (m : Message) :
    (net.deliverData m).written = net.written ++ (net.receiver.receive m.bytes).writes := rfl

def deliverAck (net : Network) (m : Message) : Network :=
  { net with
    sender := net.sender.onAck m.bytes
    acks := net.acks.erase m }

@[simp] theorem deliverAck_sender (net : Network) (m : Message) :
    (net.deliverAck m).sender = net.sender.onAck m.bytes := rfl

/-- The sender has not yet moved on to the chunk 127 after the one `m` is about. -/
def InTime (net : Network) (m : Message) : Prop := net.sender.chunkIndex < m.chunk + 127

inductive Step (net : Network) : Network → Prop
  | send (hphase : net.sender.phase = .sending) : Step net net.send
  | timeout (hphase : net.sender.phase = .waiting) : Step net { net with sender := net.sender.timeout }
  | deliverData (m : Message) (hm : m ∈ net.data) (hrunning : net.receiver.running = true)
      (htime : net.InTime m) : Step net (net.deliverData m)
  | deliverAck (m : Message) (hm : m ∈ net.acks) (hphase : net.sender.phase = .waiting)
      (htime : net.InTime m) : Step net (net.deliverAck m)
  /-- The network loses and repeats datagrams: those under way are copies of some that were. -/
  | network (data acks : Multiset Message) (hdata : data ⊆ net.data) (hacks : acks ⊆ net.acks) :
      Step net { net with data, acks }

/-- The transfer as stop and wait: the end packet is one item more, which the receiver accepts by
exiting and the sender moves past by completing. -/
def flow (net : Network) : StopAndWait where
  sent := if net.sender.phase = .complete then net.sender.chunkIndex + 1 else net.sender.chunkIndex
  received := if net.receiver.running then net.written.length else net.written.length + 1
  data := {j | ∃ m ∈ net.data, m.chunk = j}
  acks := {j | ∃ m ∈ net.acks, m.chunk = j}

end Network

/-- A receiver that has written `r` chunks takes the packet of chunk `j` for the next: it is the end
packet, or it carries the expected number. -/
def Accepts (file : List UInt8) (r j : Nat) : Prop :=
  numChunks file ≤ j ∨ (j : Int) % seqSize = r % seqSize

def Advances (file : List UInt8) (n j : Nat) : Prop := seqNumber file j = seqNumber file n

private theorem accepts_windowed (file : List UInt8) :
    StopAndWait.Windowed 128 (numChunks file + 1) (Accepts file) := by
  rintro n j hle hlt htotal (hend | hnumber)
  · omega
  · rw [seqSize] at hnumber
    omega

private theorem advances_windowed (file : List UInt8) :
    StopAndWait.Windowed 128 (numChunks file + 1) (Advances file) := by
  intro n j hle hlt htotal hnumber
  unfold Advances seqNumber seqSize at hnumber
  split at hnumber <;> split at hnumber <;> omega

/-- The receiver has written the first chunks of the file and expects the next. -/
structure Receiver.At (names : Names) (file : List UInt8) (rc : Receiver)
    (written : List (List UInt8)) : Prop where
  chunks : written = firstChunks file written.length
  within : written.length ≤ numChunks file
  seqNum : rc.seqNum = written.length % seqSize
  exited : rc.running = false → written.length = numChunks file
  unwritten : rc.rewrite = false → written = []
  stored : rc.rewrite = true →
    rc.files (recvPath names.subdir.bytes names.fileName.bytes) = some written.flatten

structure Network.Inv (names : Names) (file : List UInt8) (net : Network) : Prop where
  flow : StopAndWait.Inv (numChunks file + 1) net.flow
  sender : net.sender.At names file
  complete : net.sender.phase = .complete → net.sender.chunkIndex = numChunks file
  receiver : net.receiver.At names file net.written
  data : ∀ m ∈ net.data, PacketOf names file m.chunk m.bytes
  acks : ∀ m ∈ net.acks, m.bytes = ackMessage (charOf (seqNumber file m.chunk))

variable {names : Names} {file : List UInt8} {net net' : Network} {m : Message}

theorem Receiver.At.write {rc : Receiver} {written : List (List UInt8)} (h : rc.At names file written)
    (hnext : written.length < numChunks file) :
    (rc.write (recvPath names.subdir.bytes names.fileName.bytes) (chunk file written.length)).At names
      file (written ++ [chunk file written.length]) := by
  constructor
  case chunks =>
    rw [List.length_append, List.length_singleton, firstChunks_succ, ← h.chunks]
  case within =>
    rw [List.length_append, List.length_singleton]
    exact hnext
  case seqNum =>
    show (rc.seqNum + 1) % seqSize = _
    rw [h.seqNum, seqSize, List.length_append, List.length_singleton]
    omega
  case exited =>
    intro hexit
    have := h.exited hexit
    omega
  case unwritten =>
    intro hfresh
    exact absurd hfresh (by simp [Receiver.write])
  case stored =>
    intro _
    cases hrewrite : rc.rewrite with
    | true => simp [Receiver.write, hrewrite, h.stored hrewrite]
    | false => simp [Receiver.write, hrewrite, h.unwritten hrewrite]

namespace Network

theorem flow_sent (hopen : net.sender.phase ≠ .complete) : net.flow.sent = net.sender.chunkIndex :=
  if_neg hopen

private theorem flow_sent_complete (hcomplete : net.sender.phase = .complete) :
    net.flow.sent = net.sender.chunkIndex + 1 :=
  if_pos hcomplete

theorem flow_received (hrunning : net.receiver.running = true) :
    net.flow.received = net.written.length :=
  if_pos hrunning

theorem flow_received_exited (hexited : net.receiver.running = false) :
    net.flow.received = net.written.length + 1 :=
  if_neg (by rw [hexited]; decide)

theorem Inv.open_of_running (h : net.Inv names file) (hrunning : net.receiver.running = true) :
    net.sender.phase ≠ .complete := by
  intro hcomplete
  have hbehind := h.flow.behind
  have hindex := h.complete hcomplete
  have hwithin := h.receiver.within
  rw [flow_sent_complete hcomplete, flow_received hrunning] at hbehind
  omega

theorem Inv.receive_cases (h : net.Inv names file) (hm : m ∈ net.data)
    (hrunning : net.receiver.running = true) (htime : net.InTime m) :
    (m.chunk = numChunks file ∧ m.chunk = net.written.length ∧ net.receiver.receive m.bytes =
      ⟨{ net.receiver with running := false }, [ackMessage (charOf (seqNumber file m.chunk))], []⟩) ∨
    (m.chunk < numChunks file ∧ m.chunk = net.written.length ∧ net.receiver.receive m.bytes =
      ⟨net.receiver.write (recvPath names.subdir.bytes names.fileName.bytes) (chunk file m.chunk),
        [ackMessage (charOf (seqNumber file m.chunk))], [chunk file m.chunk]⟩) ∨
    (m.chunk ≠ net.written.length ∧ net.receiver.receive m.bytes =
      ⟨net.receiver, [ackMessage (charOf (seqNumber file m.chunk))], []⟩) := by
  have hpacket := h.data m hm
  have hsent := h.flow.data m.chunk ⟨m, hm, rfl⟩
  have hbehind := h.flow.behind
  have hahead := h.flow.ahead
  rw [flow_sent (h.open_of_running hrunning)] at hsent hbehind hahead
  rw [flow_received hrunning] at hbehind hahead
  have hwithin := h.receiver.within
  have hindex := h.sender.within
  have hexpects := h.receiver.seqNum
  rw [InTime] at htime
  by_cases hchunk : m.chunk < numChunks file
  · by_cases hnext : m.chunk = net.written.length
    · exact .inr (.inl ⟨hchunk, hnext, Receiver.receive_expected hpacket hchunk (by rw [hexpects, hnext])⟩)
    · -- the two numbers are less than one turn apart
      have hother : net.receiver.seqNum ≠ m.chunk % seqSize := by
        rw [hexpects, seqSize]
        omega
      have hpositive : 0 ≤ net.receiver.seqNum := by
        rw [hexpects, seqSize]
        omega
      exact .inr (.inr ⟨hnext, Receiver.receive_other hpacket hchunk hother hpositive⟩)
  · exact .inl ⟨by omega, by omega, Receiver.receive_end hpacket (by omega)⟩

theorem Inv.onAck_cases (h : net.Inv names file) (hm : m ∈ net.acks)
    (hphase : net.sender.phase = .waiting) (htime : net.InTime m) :
    (m.chunk = net.sender.chunkIndex ∧ net.sender.chunkIndex < numChunks file ∧
      (net.sender.onAck m.bytes).At names file ∧
      (net.sender.onAck m.bytes).chunkIndex = net.sender.chunkIndex + 1 ∧
      (net.sender.onAck m.bytes).phase = .sending) ∨
    (m.chunk = net.sender.chunkIndex ∧ net.sender.chunkIndex = numChunks file ∧
      net.sender.onAck m.bytes = { net.sender with
        ackBuffer := net.sender.ackBuffer.overwrite m.bytes
        phase := .complete }) ∨
    net.sender.onAck m.bytes = { net.sender with
      ackBuffer := net.sender.ackBuffer.overwrite m.bytes
      phase := .sending } := by
  have hopen : net.sender.phase ≠ .complete := by
    rw [hphase]
    decide
  have hbytes := h.acks m hm
  have hindex := h.sender.within
  by_cases hnumber : seqNumber file m.chunk = seqNumber file net.sender.chunkIndex
  · have hitem := h.flow.item_acknowledged (advances_windowed file) (j := m.chunk) ⟨m, hm, rfl⟩
    rw [flow_sent hopen] at hitem
    rw [InTime] at htime
    have hcurrent : m.chunk = net.sender.chunkIndex := hitem (by omega) (by omega) hnumber
    rw [hbytes, hcurrent]
    rcases Nat.lt_or_ge net.sender.chunkIndex (numChunks file) with hchunk | hlast
    · obtain ⟨hat, hnext, hsending⟩ := h.sender.onAck_chunk hchunk
      exact .inl ⟨rfl, hchunk, hat, hnext, hsending⟩
    · exact .inr (.inl ⟨rfl, by omega, h.sender.onAck_end hlast⟩)
  · refine .inr (.inr ?_)
    have hother : charOf (seqNumber file m.chunk) ≠ charOf net.sender.seqNum := by
      rw [h.sender.seqNum]
      exact fun heq => hnumber (charOf_seqNumber_inj heq)
    rw [hbytes, Sender.onAck_other hother]

private theorem flow_data_deliverData (net : Network) (m : Message) :
    (net.deliverData m).flow.data ⊆ net.flow.data := by
  rintro j ⟨m', hm', hj⟩
  exact ⟨m', Multiset.mem_of_mem_erase hm', hj⟩

private theorem flow_acks_deliverData (net : Network) (m : Message) :
    (net.deliverData m).flow.acks ⊆ insert m.chunk net.flow.acks := by
  rintro j ⟨m', hm', hj⟩
  rcases Multiset.mem_add.mp hm' with hm' | hm'
  · obtain ⟨ack, -, rfl⟩ := List.mem_map.mp hm'
    exact .inl hj.symm
  · exact .inr ⟨m', hm', hj⟩

private theorem flow_acks_deliverAck (net : Network) (m : Message) :
    (net.deliverAck m).flow.acks ⊆ net.flow.acks := by
  rintro j ⟨m', hm', hj⟩
  exact ⟨m', Multiset.mem_of_mem_erase hm', hj⟩

private theorem Inv.flow_deliverData (h : net.Inv names file) (hm : m ∈ net.data)
    (hrunning : net.receiver.running = true) (htime : net.InTime m) :
    StopAndWait.Step 128 (numChunks file + 1) (Accepts file) (Advances file) net.flow
      (net.deliverData m).flow := by
  have hsent := flow_sent (h.open_of_running hrunning)
  have hreceived := flow_received hrunning
  have hwithin := h.receiver.within
  have hj : m.chunk ∈ net.flow.data := ⟨m, hm, rfl⟩
  have hfresh : net.flow.sent + 1 < m.chunk + 128 := by
    rw [InTime] at htime
    omega
  have hdata := flow_data_deliverData net m
  have hacks := flow_acks_deliverData net m
  rcases h.receive_cases hm hrunning htime with ⟨hlast, hnext, hreceive⟩ | ⟨hchunk, hnext, hreceive⟩ |
    ⟨hother, hreceive⟩
  · refine .accept m.chunk hj hfresh (by omega) (.inl hlast.ge) rfl ?_ hdata hacks
    rw [flow_received_exited (by rw [deliverData_receiver, hreceive]), deliverData_written, hreceive,
      List.append_nil, hreceived]
  · refine .accept m.chunk hj hfresh (by omega) (.inr (by rw [hreceived, hnext])) rfl ?_ hdata hacks
    have hstill : (net.deliverData m).receiver.running = true := by
      rw [deliverData_receiver, hreceive]
      exact hrunning
    rw [flow_received hstill, deliverData_written, hreceive, List.length_append, hreceived]
    rfl
  · refine .again m.chunk hj (hreceived ▸ hother) rfl ?_ hdata hacks
    have hstill : (net.deliverData m).receiver.running = true := by
      rw [deliverData_receiver, hreceive]
      exact hrunning
    rw [flow_received hstill, deliverData_written, hreceive, List.append_nil, hreceived]

private theorem Inv.flow_deliverAck (h : net.Inv names file) (hm : m ∈ net.acks)
    (hphase : net.sender.phase = .waiting) (htime : net.InTime m) :
    StopAndWait.Step 128 (numChunks file + 1) (Accepts file) (Advances file) net.flow
      (net.deliverAck m).flow := by
  have hindex := h.sender.within
  have hsent : net.flow.sent = net.sender.chunkIndex := flow_sent (by rw [hphase]; decide)
  have hj : m.chunk ∈ net.flow.acks := ⟨m, hm, rfl⟩
  have hfresh : net.flow.sent < m.chunk + 128 := by
    rw [InTime] at htime
    omega
  have hacks := flow_acks_deliverAck net m
  rcases h.onAck_cases hm hphase htime with ⟨hcurrent, hchunk, -, hnext, hsending⟩ |
    ⟨hcurrent, hlast, honAck⟩ | honAck
  · refine .advance m.chunk hj hfresh (by omega) (by rw [Advances, hsent, hcurrent]) ?_ rfl
      subset_rfl hacks
    rw [flow_sent (by rw [deliverAck, hsending]; decide), hsent]
    exact hnext
  · refine .advance m.chunk hj hfresh (by omega) (by rw [Advances, hsent, hcurrent]) ?_ rfl
      subset_rfl hacks
    rw [flow_sent_complete (by rw [deliverAck_sender, honAck]), deliverAck_sender, honAck, hsent]
  · refine .ignore ?_ rfl subset_rfl hacks
    rw [flow_sent (by rw [deliverAck_sender, honAck]; nofun), deliverAck_sender, honAck, hsent]

private theorem Inv.flow_step (h : net.Inv names file) (hstep : Step net net') :
    StopAndWait.Step 128 (numChunks file + 1) (Accepts file) (Advances file) net.flow net'.flow := by
  have hindex := h.sender.within
  cases hstep with
  | send hphase =>
    have hsent : net.flow.sent = net.sender.chunkIndex := flow_sent (by rw [hphase]; decide)
    refine .send (by omega) (hsent ▸ rfl) rfl ?_ subset_rfl
    rintro j ⟨m, hm, hj⟩
    rcases Multiset.mem_cons.mp hm with rfl | hm
    · exact .inl (hsent ▸ hj.symm)
    · exact .inr ⟨m, hm, hj⟩
  | timeout hphase =>
    have hsent : net.flow.sent = net.sender.chunkIndex := flow_sent (by rw [hphase]; decide)
    exact .ignore (hsent ▸ rfl) rfl subset_rfl subset_rfl
  | deliverData m hm hrunning htime => exact h.flow_deliverData hm hrunning htime
  | deliverAck m hm hphase htime => exact h.flow_deliverAck hm hphase htime
  | network data acks hdata hacks =>
    exact .ignore rfl rfl (fun j ⟨m, hm, hj⟩ => ⟨m, hdata hm, hj⟩) fun j ⟨m, hm, hj⟩ => ⟨m, hacks hm, hj⟩

private theorem Inv.of_flow (h : net.Inv names file) (hstep : Step net net')
    (sender : net'.sender.At names file)
    (complete : net'.sender.phase = .complete → net'.sender.chunkIndex = numChunks file)
    (receiver : net'.receiver.At names file net'.written)
    (data : ∀ m ∈ net'.data, PacketOf names file m.chunk m.bytes)
    (acks : ∀ m ∈ net'.acks, m.bytes = ackMessage (charOf (seqNumber file m.chunk))) :
    net'.Inv names file :=
  ⟨h.flow.step (accepts_windowed file) (advances_windowed file) (h.flow_step hstep), sender, complete,
    receiver, data, acks⟩

private theorem Inv.reaction (h : net.Inv names file) (hm : m ∈ net.data)
    (hrunning : net.receiver.running = true) (htime : net.InTime m) :
    (net.receiver.receive m.bytes).acks = [ackMessage (charOf (seqNumber file m.chunk))] ∧
      (net.deliverData m).receiver.At names file (net.deliverData m).written := by
  have hat := h.receiver
  rw [deliverData_receiver, deliverData_written]
  rcases h.receive_cases hm hrunning htime with ⟨hlast, hnext, hreceive⟩ | ⟨hchunk, hnext, hreceive⟩ |
    ⟨hother, hreceive⟩
  · rw [hreceive, List.append_nil]
    exact ⟨rfl, hat.chunks, hat.within, hat.seqNum, fun _ => hnext ▸ hlast, hat.unwritten, hat.stored⟩
  · rw [hreceive, hnext]
    exact ⟨rfl, hat.write (hnext ▸ hchunk)⟩
  · rw [hreceive, List.append_nil]
    exact ⟨rfl, hat⟩

theorem Inv.step (h : net.Inv names file) (hstep : Step net net') : net'.Inv names file := by
  cases hstep with
  | send hphase =>
    have hstep := Step.send hphase
    refine h.of_flow hstep (h.sender.resume net.sender.ackBuffer .waiting) nofun h.receiver
      (fun m hm => ?_) h.acks
    rcases Multiset.mem_cons.mp hm with rfl | hm
    · exact h.sender.packet
    · exact h.data m hm
  | timeout hphase =>
    exact h.of_flow (.timeout hphase) (h.sender.resume net.sender.ackBuffer .sending) nofun h.receiver
      h.data h.acks
  | deliverData m hm hrunning htime =>
    have hstep := Step.deliverData m hm hrunning htime
    have hdata : ∀ m' ∈ net.data.erase m, PacketOf names file m'.chunk m'.bytes :=
      fun m' hm' => h.data m' (Multiset.mem_of_mem_erase hm')
    have hreaction := h.reaction hm hrunning htime
    apply h.of_flow hstep h.sender h.complete hreaction.2 hdata
    intro m' hm'
    rcases Multiset.mem_add.mp hm' with hm' | hm'
    · obtain ⟨ack, hack, rfl⟩ := List.mem_map.mp hm'
      rw [hreaction.1] at hack
      exact List.mem_singleton.mp hack
    · exact h.acks m' hm'
  | deliverAck m hm hphase htime =>
    have hstep := Step.deliverAck m hm hphase htime
    have hacks : ∀ m' ∈ net.acks.erase m, m'.bytes = ackMessage (charOf (seqNumber file m'.chunk)) :=
      fun m' hm' => h.acks m' (Multiset.mem_of_mem_erase hm')
    rcases h.onAck_cases hm hphase htime with ⟨-, -, hat', -, hsending⟩ | ⟨-, hlast, honAck⟩ | honAck
    · refine h.of_flow hstep hat' (fun hcomplete => ?_) h.receiver h.data hacks
      rw [deliverAck_sender, hsending] at hcomplete
      cases hcomplete
    · have hat' : (net.sender.onAck m.bytes).At names file := honAck ▸ h.sender.resume _ _
      refine h.of_flow hstep hat' (fun _ => ?_) h.receiver h.data hacks
      rw [deliverAck_sender, honAck]
      exact hlast
    · have hat' : (net.sender.onAck m.bytes).At names file := honAck ▸ h.sender.resume _ _
      refine h.of_flow hstep hat' (fun hcomplete => ?_) h.receiver h.data hacks
      rw [deliverAck_sender, honAck] at hcomplete
      cases hcomplete
  | network data acks hdata hacks =>
    exact h.of_flow (.network data acks hdata hacks) h.sender h.complete h.receiver
      (fun m hm => h.data m (hdata hm)) fun m hm => h.acks m (hacks hm)

theorem Inv.start (names : Names) (file : List UInt8) (fresh : Block dataSize)
    (freshAck : Block ackSize) (files : List UInt8 → Option (List UInt8)) :
    (start names file fresh freshAck files).Inv names file where
  flow := by
    refine ⟨Nat.le_refl _, Nat.zero_le _, Nat.zero_le _, ?_, ?_⟩
    · rintro j ⟨m, hm, -⟩
      exact absurd hm (Multiset.notMem_zero m)
    · rintro j ⟨m, hm, -⟩
      exact absurd hm (Multiset.notMem_zero m)
  sender := Sender.start_at names file fresh freshAck
  complete := nofun
  receiver := ⟨rfl, Nat.zero_le _, rfl, nofun, fun _ => rfl, nofun⟩
  data := fun m hm => absurd hm (Multiset.notMem_zero m)
  acks := fun m hm => absurd hm (Multiset.notMem_zero m)

end Network

end Comp556.Transfer
