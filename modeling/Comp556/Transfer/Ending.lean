import Comp556.Transfer.Network
import Mathlib.Data.Multiset.ZeroCons

/-!
# The end of a transfer

The receiver acknowledges the end packet once and exits. After that nothing answers the sender: it
completes if the network keeps a copy of that acknowledgement, and else sends the end packet forever.
-/

namespace Comp556.Transfer.Network

def EndAck (m : Message) : Prop := m.bytes = ackMessage (charOf (-1))

/-- A step over a network that loses and delays datagrams as long as it likes. `admits` says what may
be left of the acknowledgements when it loses some. -/
inductive LossyStep (admits : Network → Multiset Message → Prop) (net : Network) : Network → Prop
  | send (hphase : net.sender.phase = .sending) : LossyStep admits net net.send
  | timeout (hphase : net.sender.phase = .waiting) :
      LossyStep admits net { net with sender := net.sender.timeout }
  | deliverData (m : Message) (hm : m ∈ net.data) (hrunning : net.receiver.running = true) :
      LossyStep admits net (net.deliverData m)
  | deliverAck (m : Message) (hm : m ∈ net.acks) (hphase : net.sender.phase = .waiting) :
      LossyStep admits net (net.deliverAck m)
  | lose (data acks : Multiset Message) (hdata : data ≤ net.data) (hacks : acks ≤ net.acks)
      (hadmits : admits net acks) : LossyStep admits net { net with data, acks }

/-- Nothing is promised about what is lost. -/
def Unreliable (_ : Network) (_ : Multiset Message) : Prop := True

/-- While the sender waits for the receiver's last acknowledgement, a copy of it is left. -/
def Spares (net : Network) (acks : Multiset Message) : Prop :=
  net.receiver.running = false → net.sender.phase ≠ .complete → ∃ m ∈ acks, EndAck m

/-- The receiver exits on the end packet only, and from the end packet on the sender has no other. -/
structure EndInv (net : Network) : Prop where
  numbered : net.sender.Numbered
  data : ∀ m ∈ net.data, seqNumReceived (recvBuffer m.bytes) = charOf (-1) → net.sender.seqNum = -1
  acks : ∀ m ∈ net.acks, ∃ b, m.bytes = ackMessage b
  exited : net.receiver.running = false → net.sender.seqNum = -1

variable {admits : Network → Multiset Message → Prop} {net net' : Network} {m : Message}

theorem EndInv.start (names : Names) (file : List UInt8) (fresh : Block dataSize)
    (freshAck : Block ackSize) (files : List UInt8 → Option (List UInt8)) :
    (start names file fresh freshAck files).EndInv :=
  ⟨.start names file fresh freshAck, fun m hm => absurd hm (Multiset.notMem_zero m),
    fun m hm => absurd hm (Multiset.notMem_zero m), nofun⟩

theorem EndInv.step (h : net.EndInv) (hstep : LossyStep admits net net') : net'.EndInv := by
  cases hstep with
  | send =>
    refine ⟨⟨h.numbered.low, h.numbered.high, h.numbered.packet⟩, fun m hm hend => ?_, h.acks, h.exited⟩
    rcases Multiset.mem_cons.mp hm with rfl | hm
    · exact h.numbered.last_of_number hend
    · exact h.data m hm hend
  | timeout => exact ⟨⟨h.numbered.low, h.numbered.high, h.numbered.packet⟩, h.data, h.acks, h.exited⟩
  | deliverData m hm hrunning =>
    refine ⟨h.numbered, fun m' hm' => h.data m' (Multiset.mem_of_mem_erase hm'), fun m' hm' => ?_,
      fun hexited => h.data m hm ((Receiver.receive_running _ _ hrunning).mp hexited)⟩
    rcases Multiset.mem_add.mp hm' with hm' | hm'
    · obtain ⟨ack, hack, rfl⟩ := List.mem_map.mp hm'
      exact ⟨_, Receiver.receive_acks _ _ hack⟩
    · exact h.acks m' hm'
  | deliverAck m hm =>
    obtain ⟨b, hb⟩ := h.acks m hm
    obtain ⟨hnumbered, hlast⟩ := h.numbered.onAck b
    rw [← hb] at hnumbered hlast
    exact ⟨hnumbered, fun m' hm' hend => hlast (h.data m' hm' hend),
      fun m' hm' => h.acks m' (Multiset.mem_of_mem_erase hm'), fun hexited => hlast (h.exited hexited)⟩
  | lose data acks hdata hacks =>
    exact ⟨h.numbered, fun m hm => h.data m (Multiset.mem_of_le hdata hm),
      fun m hm => h.acks m (Multiset.mem_of_le hacks hm), h.exited⟩

private theorem EndInv.deliverAck_end (h : net.EndInv) (hexited : net.receiver.running = false)
    (hend : EndAck m) :
    (net.deliverAck m).sender.phase = .complete := by
  rw [deliverAck_sender, show m.bytes = _ from hend, Sender.onAck_last (h.exited hexited)]

private theorem EndInv.deliverAck_other (h : net.EndInv) (hexited : net.receiver.running = false)
    (hm : m ∈ net.acks) (hother : ¬ EndAck m) : (net.deliverAck m).sender.phase = .sending := by
  obtain ⟨b, hb⟩ := h.acks m hm
  have hne : b ≠ charOf net.sender.seqNum := by
    rw [h.exited hexited]
    intro heq
    subst heq
    exact hother hb
  rw [deliverAck_sender, hb, Sender.onAck_other hne]

/-- While the sender has to be told of the end, the message is under way. -/
def Told (net : Network) : Prop :=
  net.receiver.running = false → net.sender.phase ≠ .complete → ∃ m ∈ net.acks, EndAck m

theorem Told.step (htold : net.Told) (h : net.EndInv) (hstep : LossyStep Spares net net') : net'.Told := by
  intro hexited hopen
  cases hstep with
  | send hphase => exact htold hexited (by rw [hphase]; nofun)
  | timeout hphase => exact htold hexited (by rw [hphase]; nofun)
  | deliverData m hm hrunning =>
    have hnumber := (Receiver.receive_running _ _ hrunning).mp hexited
    refine ⟨⟨m.chunk, ackMessage (charOf (-1))⟩, Multiset.mem_add.mpr (.inl ?_), rfl⟩
    refine List.mem_map.mpr ⟨_, ?_, rfl⟩
    rw [Receiver.receive, if_pos hnumber, hnumber]
    exact List.mem_singleton_self _
  | deliverAck m hm hphase =>
    obtain ⟨m', hm', hend⟩ := htold hexited (by rw [hphase]; nofun)
    by_cases hm_end : EndAck m
    · exact absurd (h.deliverAck_end hexited hm_end) hopen
    · have hne : m' ≠ m := by
        intro heq
        subst heq
        exact hm_end hend
      exact ⟨m', (Multiset.mem_erase_of_ne hne).mpr hm', hend⟩
  | lose data acks _ _ hspares => exact hspares hexited hopen

private theorem EndInv.can_complete (h : net.EndInv) (hexited : net.receiver.running = false)
    (hopen : net.sender.phase ≠ .complete) (hm : m ∈ net.acks) (hend : EndAck m) :
    ∃ net', Relation.ReflTransGen (LossyStep admits) net net' ∧ net'.sender.phase = .complete := by
  cases hphase : net.sender.phase with
  | complete => exact absurd hphase hopen
  | waiting => exact ⟨_, .single (.deliverAck m hm hphase), h.deliverAck_end hexited hend⟩
  | sending =>
    have hsend : LossyStep admits net net.send := .send hphase
    exact ⟨_, .tail (.single hsend) (.deliverAck m hm rfl), (h.step hsend).deliverAck_end hexited hend⟩

/-- The receiver is gone, and no end acknowledgement is left for the sender. -/
structure Dead (net : Network) : Prop where
  inv : net.EndInv
  exited : net.receiver.running = false
  pending : net.sender.phase ≠ .complete
  silent : ∀ m ∈ net.acks, ¬ EndAck m

theorem Dead.step (h : net.Dead) (hstep : LossyStep admits net net') : net'.Dead := by
  have hinv := h.inv.step hstep
  cases hstep with
  | send => exact ⟨hinv, h.exited, nofun, h.silent⟩
  | timeout => exact ⟨hinv, h.exited, nofun, h.silent⟩
  | deliverData m hm hrunning => exact absurd (h.exited.symm.trans hrunning) nofun
  | deliverAck m hm hphase =>
    refine ⟨hinv, h.exited, ?_, fun m' hm' => h.silent m' (Multiset.mem_of_mem_erase hm')⟩
    rw [h.inv.deliverAck_other h.exited hm (h.silent m hm)]
    nofun
  | lose data acks hdata hacks =>
    exact ⟨hinv, h.exited, h.pending, fun m hm => h.silent m (Multiset.mem_of_le hacks hm)⟩

theorem Dead.run (h : net.Dead) (hrun : Relation.ReflTransGen (LossyStep admits) net net') : net'.Dead :=
  run_invariant Dead hrun h fun _ _ hdead hstep => hdead.step hstep

variable (names : Names) (file : List UInt8) (fresh : Block dataSize) (freshAck : Block ackSize)
  (files : List UInt8 → Option (List UInt8))

/-- As long as the network spares the last acknowledgement, a sender that is still running when the receiver
has exited has an end acknowledgement under way and can complete. A loss leaves it able to complete exactly
if it spares one. -/
theorem ending_iff
    (hrun : Relation.ReflTransGen (LossyStep Spares) (start names file fresh freshAck files) net)
    (hexited : net.receiver.running = false) (hopen : net.sender.phase ≠ .complete) :
    (∃ m ∈ net.acks, EndAck m) ∧
      (∃ net', Relation.ReflTransGen (LossyStep Spares) net net' ∧ net'.sender.phase = .complete) ∧
      ∀ data acks, data ≤ net.data → acks ≤ net.acks →
        ((∃ net', Relation.ReflTransGen (LossyStep Unreliable) { net with data, acks } net' ∧
          net'.sender.phase = .complete) ↔ Spares net acks) := by
  obtain ⟨hinv, htold⟩ := run_invariant (fun net => net.EndInv ∧ net.Told) hrun
    ⟨.start names file fresh freshAck files, nofun⟩
    fun _ _ h hstep => ⟨h.1.step hstep, h.2.step h.1 hstep⟩
  obtain ⟨m, hm, hend⟩ := htold hexited hopen
  refine ⟨⟨m, hm, hend⟩, hinv.can_complete hexited hopen hm hend, fun data acks hdata hacks => ?_⟩
  have hloss : LossyStep Unreliable net { net with data, acks } := .lose data acks hdata hacks trivial
  have hlost := hinv.step hloss
  constructor
  · rintro ⟨net', hrest, hcomplete⟩ - -
    by_contra hnone
    exact (Dead.run ⟨hlost, hexited, hopen, fun m hm hend => hnone ⟨m, hm, hend⟩⟩ hrest).pending hcomplete
  · intro hspares
    obtain ⟨m, hm, hend⟩ := hspares hexited hopen
    exact hlost.can_complete hexited hopen hm hend

def delivered (net : Network) : Network :=
  net.send.deliverData ⟨net.sender.chunkIndex, net.sender.packet⟩

private theorem delivered_run (net : Network) (admits : Network → Multiset Message → Prop)
    (hphase : net.sender.phase = .sending) (hrunning : net.receiver.running = true) :
    Relation.ReflTransGen (LossyStep admits) net net.delivered := by
  have hmem : (⟨net.sender.chunkIndex, net.sender.packet⟩ : Message) ∈ net.send.data :=
    Multiset.mem_cons_self _ _
  exact .tail (.single (.send hphase)) (.deliverData _ hmem hrunning)

private theorem delivered_open (net : Network) : net.delivered.sender.phase ≠ .complete := nofun

private theorem EndInv.delivered_exited (h : net.EndInv) (hrunning : net.receiver.running = true)
    (hlast : net.sender.seqNum = -1) : net.delivered.receiver.running = false := by
  apply (Receiver.receive_running _ _ hrunning).mpr
  rw [h.numbered.packet, hlast]

/-- When all that is under way is lost as soon as the receiver has the end packet, nothing ends the
sender any more. -/
private theorem EndInv.stuck (h : net.EndInv) (hphase : net.sender.phase = .sending)
    (hrunning : net.receiver.running = true) (hlast : net.sender.seqNum = -1) :
    ∃ net', Relation.ReflTransGen (LossyStep Unreliable) net net' ∧ net'.receiver.running = false ∧
      ∀ net'', Relation.ReflTransGen (LossyStep Unreliable) net' net'' →
        net''.sender.phase ≠ .complete ∧ ∀ m ∈ net''.acks, ¬ EndAck m := by
  have hexited := h.delivered_exited hrunning hlast
  have hrun := (delivered_run net Unreliable hphase hrunning).tail
    (.lose 0 0 (Multiset.zero_le _) (Multiset.zero_le _) trivial)
  have hinv := run_invariant EndInv hrun h fun _ _ h hstep => h.step hstep
  have hdead : Dead { net.delivered with data := 0, acks := 0 } :=
    ⟨hinv, hexited, delivered_open net, fun m hm => absurd hm (Multiset.notMem_zero m)⟩
  exact ⟨_, hrun, hexited, fun net' hrest => ⟨(hdead.run hrest).pending, (hdead.run hrest).silent⟩⟩

def emptyStart : Network :=
  start ⟨Block.zeros 50, Block.zeros 20⟩ [] (Block.zeros dataSize) (Block.zeros ackSize) fun _ => none

private theorem emptyStart_inv : emptyStart.EndInv := .start _ _ _ _ _

theorem empty_completes :
    ∃ net, Relation.ReflTransGen (LossyStep Spares) emptyStart.delivered net ∧
      net.sender.phase = .complete :=
  (ending_iff _ _ _ _ _ (delivered_run emptyStart Spares rfl rfl)
    (emptyStart_inv.delivered_exited rfl rfl) (delivered_open emptyStart)).2.1

theorem empty_stuck :
    ∃ net, Relation.ReflTransGen (LossyStep Unreliable) emptyStart net ∧ net.receiver.running = false ∧
      ∀ net', Relation.ReflTransGen (LossyStep Unreliable) net net' →
        net'.sender.phase ≠ .complete ∧ ∀ m ∈ net'.acks, ¬ EndAck m :=
  emptyStart_inv.stuck rfl rfl rfl

end Comp556.Transfer.Network
