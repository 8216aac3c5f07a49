import Comp556.Transfer.Network

/-!
# Reliable transfer

What the invariant of the transfer says about the file that is received, and that a transfer over a
network that behaves ends.
-/

namespace Comp556.Transfer.Network

variable {names : Names} {file : List UInt8} {net net' : Network}

theorem Inv.level (h : net.Inv names file) :
    net.written.length = net.sender.chunkIndex ∨ net.written.length = net.sender.chunkIndex + 1 := by
  have hbehind := h.flow.behind
  have hahead := h.flow.ahead
  have hwithin := h.receiver.within
  have hindex := h.sender.within
  cases hrunning : net.receiver.running with
  | true =>
    rw [flow_sent (h.open_of_running hrunning), flow_received hrunning] at hbehind hahead
    omega
  | false =>
    have hall := h.receiver.exited hrunning
    rw [flow_received_exited hrunning] at hbehind hahead
    by_cases hcomplete : net.sender.phase = .complete
    · have hlast := h.complete hcomplete
      omega
    · rw [flow_sent hcomplete] at hbehind hahead
      omega

private theorem Inv.stopped (h : net.Inv names file)
    (hstop : net.receiver.running = false ∨ net.sender.phase = .complete) :
    net.written.flatten = file := by
  have hexited : net.receiver.running = false := by
    rcases hstop with hexited | hcomplete
    · exact hexited
    · by_contra hrunning
      exact h.open_of_running (Bool.eq_true_of_not_eq_false hrunning) hcomplete
  rw [h.receiver.chunks, h.receiver.exited hexited, firstChunks_all]

theorem Inv.moves (h : net.Inv names file) (hstep : Step net net')
    (hmoved : net'.sender.chunkIndex ≠ net.sender.chunkIndex) :
    net'.sender.chunkIndex = net.sender.chunkIndex + 1 ∧ net'.written = net.written := by
  cases hstep with
  | deliverAck m hm hphase htime =>
    rcases h.onAck_cases hm hphase htime with ⟨-, -, -, hnext, -⟩ | ⟨-, -, honAck⟩ | honAck
    · exact ⟨hnext, rfl⟩
    · exact absurd (by rw [deliverAck_sender, honAck]) hmoved
    · exact absurd (by rw [deliverAck_sender, honAck]) hmoved
  | _ => exact absurd rfl hmoved

theorem Inv.run (h : net.Inv names file) (hrun : Relation.ReflTransGen Step net net') : net'.Inv names file :=
  run_invariant (Network.Inv names file) hrun h fun _ _ h hstep => h.step hstep

private theorem run_inv (names : Names) (file : List UInt8) (fresh : Block dataSize) (freshAck : Block ackSize)
    (files : List UInt8 → Option (List UInt8))
    (hrun : Relation.ReflTransGen Step (start names file fresh freshAck files) net) :
    net.Inv names file :=
  (Inv.start names file fresh freshAck files).run hrun

/-- The packet, its way to the receiver, and the acknowledgement's way back. -/
def exchange (net : Network) : Network :=
  (net.send.deliverData ⟨net.sender.chunkIndex, net.sender.packet⟩).deliverAck
    ⟨net.sender.chunkIndex, ackMessage (charOf net.sender.seqNum)⟩

/-- Both ends are at chunk `k` and the sender is about to send it. -/
structure Ready (net : Network) (k : Nat) : Prop where
  sending : net.sender.phase = .sending
  running : net.receiver.running = true
  sent : net.sender.chunkIndex = k
  written : net.written.length = k

private theorem Inv.exchange_run (h : net.Inv names file) {k : Nat} (hready : net.Ready k) :
    Relation.ReflTransGen Step net net.exchange := by
  have hsend := Step.send hready.sending
  have hmem : (⟨net.sender.chunkIndex, net.sender.packet⟩ : Message) ∈ net.send.data :=
    Multiset.mem_cons_self _ _
  have htime : net.send.InTime ⟨net.sender.chunkIndex, net.sender.packet⟩ := by
    show net.sender.chunkIndex < net.sender.chunkIndex + 127
    omega
  have hdata := Step.deliverData _ hmem hready.running htime
  have hacks : (net.send.receiver.receive net.sender.packet).acks =
      [ackMessage (charOf net.sender.seqNum)] := by
    rw [h.sender.seqNum]
    rcases (h.step hsend).receive_cases hmem hready.running htime with ⟨-, -, hreceive⟩ |
      ⟨-, -, hreceive⟩ | ⟨-, hreceive⟩ <;> rw [hreceive]
  have hack : (⟨net.sender.chunkIndex, ackMessage (charOf net.sender.seqNum)⟩ : Message) ∈
      (net.send.deliverData ⟨net.sender.chunkIndex, net.sender.packet⟩).acks := by
    refine Multiset.mem_add.mpr (.inl ?_)
    rw [hacks]
    exact List.mem_singleton_self _
  exact ((Relation.ReflTransGen.single hsend).tail hdata).tail (.deliverAck _ hack rfl htime)

private theorem exchange_sender (h : net.Inv names file) :
    net.exchange.sender =
      net.send.sender.onAck (ackMessage (charOf (seqNumber file net.sender.chunkIndex))) := by
  rw [← h.sender.seqNum]
  rfl

private theorem exchange_receiver (net : Network) :
    net.exchange.receiver = (net.receiver.receive net.sender.packet).receiver := rfl

private theorem exchange_written (net : Network) :
    net.exchange.written = net.written ++ (net.receiver.receive net.sender.packet).writes := rfl

private theorem Inv.exchange_chunk (h : net.Inv names file) {k : Nat} (hready : net.Ready k)
    (hchunk : k < numChunks file) : net.exchange.Ready (k + 1) := by
  have hsent := hready.sent
  have hexpected : net.receiver.seqNum = net.sender.chunkIndex % seqSize := by
    rw [h.receiver.seqNum, hready.written, hsent]
  have hreceive := Receiver.receive_expected h.sender.packet (hsent ▸ hchunk) hexpected
  obtain ⟨-, hnext, hsending⟩ := (h.step (.send hready.sending)).sender.onAck_chunk
    (show net.sender.chunkIndex < _ from hsent ▸ hchunk)
  have hsender := exchange_sender h
  constructor
  · rw [hsender]
    exact hsending
  · rw [exchange_receiver, hreceive]
    exact hready.running
  · rw [hsender, ← hsent]
    exact hnext
  · rw [exchange_written, hreceive, List.length_append, hready.written]
    rfl

private theorem Inv.exchange_end (h : net.Inv names file) (hready : net.Ready (numChunks file)) :
    net.exchange.receiver.running = false ∧ net.exchange.sender.phase = .complete := by
  have hlast := hready.sent.ge
  constructor
  · rw [exchange_receiver, Receiver.receive_end h.sender.packet hlast]
  · have honAck := (h.step (.send hready.sending)).sender.onAck_end hlast
    rw [exchange_sender h]
    exact congrArg Sender.phase honAck

private theorem Inv.exists_ready (h : net.Inv names file) {j k : Nat} (hready : net.Ready j) (hjk : j ≤ k)
    (hk : k ≤ numChunks file) : ∃ net', Relation.ReflTransGen Step net net' ∧ net'.Ready k := by
  induction k, hjk using Nat.le_induction with
  | base => exact ⟨net, .refl, hready⟩
  | succ k hjk ih =>
    obtain ⟨net', hrun, hready'⟩ := ih (by omega)
    have hinv := h.run hrun
    exact ⟨net'.exchange, hrun.trans (hinv.exchange_run hready'), hinv.exchange_chunk hready' hk⟩

private theorem Inv.exists_complete (h : net.Inv names file) {k : Nat} (hready : net.Ready k)
    (hk : k ≤ numChunks file) :
    ∃ net', Relation.ReflTransGen Step net net' ∧
      net'.receiver.running = false ∧ net'.sender.phase = .complete := by
  obtain ⟨net', hrun, hready'⟩ := h.exists_ready hready hk (Nat.le_refl _)
  have hinv := h.run hrun
  exact ⟨net'.exchange, hrun.trans (hinv.exchange_run hready'), hinv.exchange_end hready'⟩

variable (names file) (fresh : Block dataSize) (freshAck : Block ackSize)
  (files : List UInt8 → Option (List UInt8))

private theorem exists_complete : ∃ net,
    Relation.ReflTransGen Step (start names file fresh freshAck files) net ∧
      net.receiver.running = false ∧ net.sender.phase = .complete :=
  (Inv.start names file fresh freshAck files).exists_complete ⟨rfl, rfl, rfl, rfl⟩ (Nat.zero_le _)

/-- In every state of a run, the receiver has appended the chunks before the one the sender is at, and maybe
that one too; the sender moves past a chunk only when it has been appended; and when either program stops,
what has been appended is the file. -/
theorem reliable_transfer {net : Network}
    (hrun : Relation.ReflTransGen Step (start names file fresh freshAck files) net) :
    (∃ r, r ≤ numChunks file ∧ net.written = firstChunks file r ∧
      (r = net.sender.chunkIndex ∨ r = net.sender.chunkIndex + 1)) ∧
    (∀ net', Step net net' → net'.sender.chunkIndex ≠ net.sender.chunkIndex →
      net'.sender.chunkIndex = net.sender.chunkIndex + 1 ∧
        net.written = firstChunks file (net.sender.chunkIndex + 1)) ∧
    (net.receiver.running = false ∨ net.sender.phase = .complete → net.written.flatten = file) ∧
    (net.receiver.rewrite = true →
      net.receiver.files (recvPath names.subdir.bytes names.fileName.bytes) = some net.written.flatten) := by
  have hinv := run_inv names file fresh freshAck files hrun
  refine ⟨⟨net.written.length, hinv.receiver.within, hinv.receiver.chunks, hinv.level⟩,
    fun net' hstep hmoved => ?_, hinv.stopped, hinv.receiver.stored⟩
  obtain ⟨hnext, hsame⟩ := hinv.moves hstep hmoved
  have hlevel := hinv.level
  have hlevel' := (hinv.step hstep).level
  rw [hsame, hnext] at hlevel'
  have hlength : net.written.length = net.sender.chunkIndex + 1 := by omega
  exact ⟨hnext, hlength ▸ hinv.receiver.chunks⟩

def greetingStart : Network :=
  start ⟨Block.zeros 50, Block.zeros 20⟩ [0x68, 0x69] (Block.zeros dataSize) (Block.zeros ackSize) fun _ => none

def greetingRepeated : Network :=
  { greetingStart.send with data := greetingStart.send.data + greetingStart.send.data }

/-- The sender times out, and one of the two packets is lost. The other is overtaken by those to come. -/
def greetingTimedOut : Network :=
  { greetingRepeated with
    sender := greetingRepeated.sender.timeout
    data := greetingStart.send.data }

private theorem greetingTimedOut_reached : Relation.ReflTransGen Step greetingStart greetingTimedOut := by
  have hsend : Step greetingStart greetingStart.send := .send rfl
  have hrepeat : Step greetingStart.send greetingRepeated :=
    .network _ _ (fun m hm => (Multiset.mem_add.mp hm).elim id id) (Multiset.Subset.refl _)
  have htimeout : Step greetingRepeated { greetingRepeated with sender := greetingRepeated.sender.timeout } :=
    .timeout rfl
  have hlose : Step { greetingRepeated with sender := greetingRepeated.sender.timeout } greetingTimedOut :=
    .network _ _ (fun m hm => Multiset.mem_add.mpr (.inl hm)) (Multiset.Subset.refl _)
  exact (((Relation.ReflTransGen.single hsend).tail hrepeat).tail htimeout).tail hlose

theorem reliable_transfer_overtaken : ∃ net,
    Relation.ReflTransGen Step greetingTimedOut net ∧ net.sender.phase = .complete ∧
      net.written.flatten = [0x68, 0x69] := by
  have hstart := greetingTimedOut_reached
  obtain ⟨net, hrun, hexited, hcomplete⟩ :=
    (run_inv _ _ _ _ _ hstart).exists_complete ⟨rfl, rfl, rfl, rfl⟩ (Nat.zero_le _)
  exact ⟨net, hrun, hcomplete, (reliable_transfer _ _ _ _ _ (hstart.trans hrun)).2.2.1 (.inl hexited)⟩

end Comp556.Transfer.Network
