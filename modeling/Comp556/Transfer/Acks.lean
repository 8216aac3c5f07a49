import Comp556.Transfer.Endpoints

/-!
# What an acknowledgement means

`recvfile` acknowledges every packet with a matching CRC, but appends only the one whose number is
due. Here the packets of a file reach a receiver in any order and any number of times.
-/

namespace Comp556.Transfer

/-- A receiver and the chunks it has appended so far. -/
structure Host where
  receiver : Receiver
  stored : List Nat

namespace Host

def start (files : List UInt8 → Option (List UInt8)) : Host := ⟨.start files, []⟩

def deliver (h : Host) (packet : Nat × List UInt8) : Host where
  receiver := (h.receiver.receive packet.2).receiver
  stored := if (h.receiver.receive packet.2).writes = [] then h.stored else h.stored ++ [packet.1]

/-- Whenever a packet is acknowledged its chunk is among the appended ones. -/
def AcksStored (h : Host) : List (Nat × List UInt8) → Prop
  | [] => True
  | packet :: packets =>
    ((h.receiver.receive packet.2).acks ≠ [] → packet.1 ∈ (h.deliver packet).stored) ∧
      AcksStored (h.deliver packet) packets

/-- Every packet repeats an appended chunk or has the number that is due. -/
def InTurn (h : Host) : List (Nat × List UInt8) → Prop
  | [] => True
  | packet :: packets =>
    (packet.1 ∈ h.stored ∨ h.receiver.seqNum = packet.1 % seqSize) ∧ InTurn (h.deliver packet) packets

end Host

/-- A packet that carries a chunk of the file. -/
def DataPacket (names : Names) (file : List UInt8) (packet : Nat × List UInt8) : Prop :=
  packet.1 < numChunks file ∧ PacketOf names file packet.1 packet.2

/-- The output file is what the appended chunks make up. -/
structure Host.Keeps (names : Names) (file : List UInt8) (h : Host) : Prop where
  positive : 0 ≤ h.receiver.seqNum
  fresh : h.receiver.rewrite = false → h.stored = []
  written : h.receiver.rewrite = true →
    h.receiver.files (recvPath names.subdir.bytes names.fileName.bytes) =
      some (h.stored.map (chunk file)).flatten

variable {names : Names} {file : List UInt8} {h : Host} {packet : Nat × List UInt8}

theorem Host.Keeps.start (names : Names) (file : List UInt8) (files : List UInt8 → Option (List UInt8)) :
    (Host.start files).Keeps names file :=
  ⟨Int.le_refl 0, fun _ => rfl, fun hwritten => by cases hwritten⟩

private theorem Host.deliver_due (hpacket : DataPacket names file packet)
    (hdue : h.receiver.seqNum = packet.1 % seqSize) :
    h.deliver packet = ⟨h.receiver.write (recvPath names.subdir.bytes names.fileName.bytes)
      (chunk file packet.1), h.stored ++ [packet.1]⟩ := by
  rw [Host.deliver, Receiver.receive_expected hpacket.2 hpacket.1 hdue]
  rfl

private theorem Host.deliver_other (hpositive : 0 ≤ h.receiver.seqNum) (hpacket : DataPacket names file packet)
    (hother : h.receiver.seqNum ≠ packet.1 % seqSize) : h.deliver packet = h := by
  rw [Host.deliver, Receiver.receive_other hpacket.2 hpacket.1 hother hpositive]
  rfl

theorem Host.Keeps.deliver (hkeeps : h.Keeps names file) (hpacket : DataPacket names file packet) :
    (h.deliver packet).Keeps names file := by
  by_cases hdue : h.receiver.seqNum = packet.1 % seqSize
  · rw [Host.deliver_due hpacket hdue]
    constructor
    · show 0 ≤ (h.receiver.seqNum + 1) % seqSize
      rw [seqSize]
      omega
    · intro hfresh
      cases hfresh
    · intro _
      show Function.update _ _ _ _ = _
      rw [Function.update_self, List.map_append, List.flatten_append]
      cases hrewrite : h.receiver.rewrite with
      | false => simp [hkeeps.fresh hrewrite]
      | true => simp [hkeeps.written hrewrite]
  · rw [Host.deliver_other hkeeps.positive hpacket hdue]
    exact hkeeps

theorem Host.Keeps.run (hkeeps : h.Keeps names file) {packets : List (Nat × List UInt8)}
    (hpackets : ∀ packet ∈ packets, DataPacket names file packet) :
    (packets.foldl Host.deliver h).Keeps names file := by
  induction packets generalizing h with
  | nil => exact hkeeps
  | cons packet packets ih =>
    apply ih (hkeeps.deliver (hpackets packet List.mem_cons_self))
    intro packet' hmem
    exact hpackets packet' (List.mem_cons_of_mem _ hmem)

private theorem Host.Keeps.ack_stored_iff (hkeeps : h.Keeps names file)
    (hpacket : DataPacket names file packet) :
    ((h.receiver.receive packet.2).acks ≠ [] → packet.1 ∈ (h.deliver packet).stored) ↔
      packet.1 ∈ h.stored ∨ h.receiver.seqNum = packet.1 % seqSize := by
  by_cases hdue : h.receiver.seqNum = packet.1 % seqSize
  · rw [Host.deliver_due hpacket hdue]
    simp [hdue]
  · have hacked : (h.receiver.receive packet.2).acks ≠ [] := by
      simp [Receiver.receive_other hpacket.2 hpacket.1 hdue hkeeps.positive]
    rw [Host.deliver_other hkeeps.positive hpacket hdue]
    simp [hacked, hdue]

private theorem Host.Keeps.acksStored_iff (hkeeps : h.Keeps names file) {packets : List (Nat × List UInt8)}
    (hpackets : ∀ packet ∈ packets, DataPacket names file packet) :
    h.AcksStored packets ↔ h.InTurn packets := by
  induction packets generalizing h with
  | nil => exact Iff.rfl
  | cons packet packets ih =>
    have hpacket := hpackets packet List.mem_cons_self
    apply and_congr (hkeeps.ack_stored_iff hpacket)
    apply ih (hkeeps.deliver hpacket)
    intro packet' hmem
    exact hpackets packet' (List.mem_cons_of_mem _ hmem)

/-- Whatever packets of a file reach a fresh `recvfile`, it acknowledges only what it has appended if and
only if every packet repeats an appended chunk or has the number that is due. The output file consists of
the chunks counted as appended. -/
theorem acks_stored_iff (files : List UInt8 → Option (List UInt8)) {packets : List (Nat × List UInt8)}
    (hpackets : ∀ packet ∈ packets, DataPacket names file packet) :
    ((Host.start files).AcksStored packets ↔ (Host.start files).InTurn packets) ∧
      ((packets.foldl Host.deliver (Host.start files)).stored ≠ [] →
        (packets.foldl Host.deliver (Host.start files)).receiver.files
            (recvPath names.subdir.bytes names.fileName.bytes) =
          some ((packets.foldl Host.deliver (Host.start files)).stored.map (chunk file)).flatten) := by
  have hstart := Host.Keeps.start names file files
  have hfinal := hstart.run hpackets
  refine ⟨hstart.acksStored_iff hpackets, ?_⟩
  intro hstored
  apply hfinal.written
  by_contra hfresh
  exact hstored (hfinal.fresh (by simpa using hfresh))

def twoChunks : List UInt8 := List.replicate (dataSize + 1) 0

def twoChunksNames : Names := ⟨Block.zeros 50, Block.zeros 20⟩

def twoChunksPacket (j : Nat) : Nat × List UInt8 :=
  (j, packetMessage j (chunk twoChunks j).length twoChunksNames (Block.zeros dataSize))

private theorem twoChunks_packet {j : Nat} (hj : j < 2) :
    DataPacket twoChunksNames twoChunks (twoChunksPacket j) := by
  have hcount : numChunks twoChunks = 2 := by
    rw [numChunks, twoChunks, List.length_replicate]
    rfl
  have hnumber : seqNumber twoChunks j = j := by
    rw [seqNumber, hcount, if_pos hj, seqSize]
    omega
  refine ⟨hcount ▸ hj, Block.zeros dataSize, ?_, ?_⟩
  · simp [Block.zeros, chunk, twoChunks, twoChunksPacket]
  · simp only [twoChunksPacket, hnumber]

theorem twoChunks_inOrder : (Host.start fun _ => none).AcksStored
    [twoChunksPacket 0, twoChunksPacket 0, twoChunksPacket 1] := by
  have hpackets : ∀ packet ∈ [twoChunksPacket 0, twoChunksPacket 0, twoChunksPacket 1],
      DataPacket twoChunksNames twoChunks packet := by
    intro packet hpacket
    simp only [List.mem_cons, List.not_mem_nil, or_false] at hpacket
    rcases hpacket with rfl | rfl | rfl
    · exact twoChunks_packet (by decide)
    · exact twoChunks_packet (by decide)
    · exact twoChunks_packet (by decide)
  have hfirst := Host.deliver_due (h := .start fun _ => none) (hpackets (twoChunksPacket 0) (by simp)) rfl
  have hagain := Host.deliver_other (h := (Host.start fun _ => none).deliver (twoChunksPacket 0))
    (by rw [hfirst]; decide) (hpackets (twoChunksPacket 0) (by simp)) (by rw [hfirst]; decide)
  apply (acks_stored_iff (fun _ => none) hpackets).1.mpr
  refine ⟨.inr rfl, ?_, ?_, trivial⟩
  · rw [hfirst]
    exact .inl (List.mem_singleton_self 0)
  · rw [hagain, hfirst]
    exact .inr rfl

/-- The second packet comes first: it is acknowledged, and nothing has been appended. -/
theorem twoChunks_lost : DataPacket twoChunksNames twoChunks (twoChunksPacket 1) ∧
    ¬ (Host.start fun _ => none).AcksStored [twoChunksPacket 1] := by
  have hpacket := twoChunks_packet (j := 1) (by decide)
  refine ⟨hpacket, ?_⟩
  intro hstored
  have hacked := (Host.Keeps.start twoChunksNames twoChunks fun _ => none).ack_stored_iff hpacket
  have hturn := hacked.mp hstored.1
  rcases hturn with hmem | hdue
  · cases hmem
  · exact absurd hdue (by decide)

end Comp556.Transfer
