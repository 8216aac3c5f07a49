import Comp556.Transfer.Packet
import Mathlib.Logic.Function.Basic

/-!
# The two programs of the file transfer

The main loops of `sendfile` and `recvfile`, cut where they wait for the network.
-/

namespace Comp556.Transfer

/-- Where the sender stands: about to call `sendto`, blocked in `recvfrom`, or done. -/
inductive Phase where
  | sending
  | waiting
  | complete
  deriving DecidableEq, Repr

/-- The variables of `sendfile` and the part of the file it has not read. `chunkIndex` counts the
chunks it has moved past, of which the program itself keeps only the residue `seq_num`. -/
structure Sender where
  names : Names
  unread : List UInt8
  sendfileData : Block dataSize
  seqNum : Int
  packet : List UInt8
  ackBuffer : Block ackSize
  phase : Phase
  chunkIndex : Nat

/-- The outer loop up to the first `sendto`: read the next chunk and make its packet. -/
def Sender.nextPacket (s : Sender) : Sender :=
  let chunk := s.unread.take dataSize
  let sendfileData := s.sendfileData.overwrite chunk
  let seqNum := if chunk.length = 0 then -1 else s.seqNum
  { s with
    unread := s.unread.drop dataSize
    sendfileData := Block.zeros dataSize
    seqNum
    packet := packetMessage seqNum chunk.length s.names sendfileData
    phase := .sending }

@[simp] theorem Sender.nextPacket_chunkIndex (s : Sender) : s.nextPacket.chunkIndex = s.chunkIndex := rfl

/-- The sender at the first `sendto`. The two buffers hold whatever their memory held before. -/
def Sender.start (names : Names) (file : List UInt8) (fresh : Block dataSize)
    (freshAck : Block ackSize) : Sender :=
  Sender.nextPacket
    { names, unread := file, sendfileData := fresh, seqNum := 0, packet := [], ackBuffer := freshAck,
      phase := .sending, chunkIndex := 0 }

/-- `sendto` has handed the packet to the network. -/
def Sender.sent (s : Sender) : Sender := { s with phase := .waiting }

/-- `recvfrom` has run into its timeout. -/
def Sender.timeout (s : Sender) : Sender := { s with phase := .sending }

/-- `recvfrom` has returned an acknowledgement. -/
def Sender.onAck (s : Sender) (ack : List UInt8) : Sender :=
  let s := { s with ackBuffer := s.ackBuffer.overwrite ack }
  if 0 < ack.length ∧ s.ackBuffer.bytes[1]? = some (charOf s.seqNum) then
    let s := if 0 ≤ s.seqNum then { s with seqNum := (s.seqNum + 1) % seqSize } else s
    if s.seqNum = -1 then { s with phase := .complete }
    else Sender.nextPacket { s with chunkIndex := s.chunkIndex + 1 }
  else { s with phase := .sending }

/-- The variables of `recvfile` and the files of its host. -/
structure Receiver where
  seqNum : Int
  rewrite : Bool
  files : List UInt8 → Option (List UInt8)
  running : Bool

def Receiver.start (files : List UInt8 → Option (List UInt8)) : Receiver := ⟨0, false, files, true⟩

/-- The in-order branch: `remove` the file the first time, then append to it. -/
def Receiver.write (rc : Receiver) (path recvData : List UInt8) : Receiver :=
  let files := if rc.rewrite then rc.files else Function.update rc.files path none
  { rc with
    seqNum := (rc.seqNum + 1) % seqSize
    rewrite := true
    files := Function.update files path (some ((files path).getD [] ++ recvData)) }

/-- What `recvfile` does with one datagram: its state afterwards, the acknowledgements it sends and
the data of its `fwrite`s. -/
structure Reaction where
  receiver : Receiver
  acks : List (List UInt8)
  writes : List (List UInt8)

def Receiver.receive (rc : Receiver) (datagram : List UInt8) : Reaction :=
  let buffer := recvBuffer datagram
  let ack := ackMessage (seqNumReceived buffer)
  let received := charValue (seqNumReceived buffer)
  if seqNumReceived buffer = charOf (-1) then
    ⟨{ rc with running := false }, [ack], []⟩
  else if crcReceived buffer ≠ crcCalculated buffer then
    ⟨rc, [], []⟩
  else if received < rc.seqNum then
    ⟨rc, [ack], []⟩
  else if received > rc.seqNum ∧ rc.seqNum + seqSize > received then
    ⟨rc, [ack], []⟩
  else
    ⟨rc.write (pathOf buffer) (recvData buffer), [ack], [recvData buffer]⟩

/-- The chunk that the `j`-th `fread` returns. -/
def chunk (file : List UInt8) (j : Nat) : List UInt8 := (file.drop (dataSize * j)).take dataSize

def numChunks (file : List UInt8) : Nat := (file.length + (dataSize - 1)) / dataSize

def firstChunks (file : List UInt8) (r : Nat) : List (List UInt8) := (List.range r).map (chunk file)

private theorem chunk_length_le (file : List UInt8) (j : Nat) : (chunk file j).length ≤ dataSize :=
  List.length_take_le _ _

private theorem chunk_eq_nil_iff (file : List UInt8) (j : Nat) :
    (chunk file j).length = 0 ↔ numChunks file ≤ j := by
  unfold chunk numChunks dataSize
  rw [List.length_take, List.length_drop]
  omega

theorem firstChunks_succ (file : List UInt8) (r : Nat) :
    firstChunks file (r + 1) = firstChunks file r ++ [chunk file r] := by
  simp [firstChunks, List.range_succ]

private theorem firstChunks_flatten (file : List UInt8) (r : Nat) :
    (firstChunks file r).flatten = file.take (dataSize * r) := by
  induction r with
  | zero => simp [firstChunks]
  | succ r ih => rw [firstChunks_succ, List.flatten_concat, ih, chunk, Nat.mul_succ, List.take_add]

theorem firstChunks_all (file : List UInt8) : (firstChunks file (numChunks file)).flatten = file := by
  rw [firstChunks_flatten]
  apply List.take_of_length_le
  unfold numChunks dataSize
  omega

/-- The sequence number of the packet that carries the `j`-th chunk; the packet after the last chunk
is the end packet. -/
def seqNumber (file : List UInt8) (j : Nat) : Int := if j < numChunks file then j % seqSize else -1

/-- A packet of the `j`-th chunk. The bytes after the chunk are not determined. -/
def PacketOf (names : Names) (file : List UInt8) (j : Nat) (bytes : List UInt8) : Prop :=
  ∃ data : Block dataSize, data.bytes.take (chunk file j).length = chunk file j ∧
    bytes = packetMessage (seqNumber file j) (chunk file j).length names data

/-- The sender has read the chunks up to the one it is at and made its packet. -/
structure Sender.At (names : Names) (file : List UInt8) (s : Sender) : Prop where
  sameNames : s.names = names
  within : s.chunkIndex ≤ numChunks file
  seqNum : s.seqNum = seqNumber file s.chunkIndex
  unread : s.unread = file.drop (dataSize * (s.chunkIndex + 1))
  packet : PacketOf names file s.chunkIndex s.packet

theorem Sender.At.resume {names : Names} {file : List UInt8} {s : Sender} (h : s.At names file)
    (ackBuffer : Block ackSize) (phase : Phase) : { s with ackBuffer, phase }.At names file :=
  ⟨h.sameNames, h.within, h.seqNum, h.unread, h.packet⟩

theorem charOf_seqNumber_inj {file : List UInt8} {j n : Nat}
    (h : charOf (seqNumber file j) = charOf (seqNumber file n)) : seqNumber file j = seqNumber file n := by
  have hvalue := congrArg charValue h
  have hrange (i : Nat) : -128 ≤ seqNumber file i ∧ seqNumber file i < 128 := by
    unfold seqNumber seqSize
    split <;> omega
  rwa [charValue_charOf (hrange j).1 (hrange j).2, charValue_charOf (hrange n).1 (hrange n).2] at hvalue

private theorem Sender.nextPacket_at {names : Names} {file : List UInt8} {s : Sender} (hnames : s.names = names)
    (hwithin : s.chunkIndex ≤ numChunks file) (hseqNum : s.seqNum = s.chunkIndex % seqSize)
    (hunread : s.unread = file.drop (dataSize * s.chunkIndex)) : s.nextPacket.At names file := by
  have hchunk : s.unread.take dataSize = chunk file s.chunkIndex := by rw [hunread, chunk]
  have hnumber : (if (s.unread.take dataSize).length = 0 then -1 else s.seqNum) =
      seqNumber file s.chunkIndex := by
    rw [hchunk, seqNumber, hseqNum]
    by_cases hlast : s.chunkIndex < numChunks file
    · rw [if_neg (by rw [chunk_eq_nil_iff]; omega), if_pos hlast]
    · rw [if_pos (by rw [chunk_eq_nil_iff]; omega), if_neg hlast]
  have hpacket : s.nextPacket.packet = packetMessage (seqNumber file s.chunkIndex)
      (chunk file s.chunkIndex).length names (s.sendfileData.overwrite (chunk file s.chunkIndex)) := by
    rw [← hnumber, ← hchunk, ← hnames, nextPacket]
  refine ⟨hnames, hwithin, hnumber, ?_, ?_⟩
  · rw [nextPacket_chunkIndex, Nat.mul_succ, ← List.drop_drop, ← hunread, nextPacket]
  · exact ⟨_, Block.overwrite_take _ (chunk_length_le file _), hpacket⟩

theorem Sender.start_at (names : Names) (file : List UInt8) (fresh : Block dataSize)
    (freshAck : Block ackSize) : (Sender.start names file fresh freshAck).At names file :=
  Sender.nextPacket_at rfl (Nat.zero_le _) rfl (by rw [Nat.mul_zero, List.drop_zero])

variable {names : Names} {file : List UInt8} {s : Sender} {rc : Receiver} {bytes : List UInt8}

private theorem ackBuffer_ackMessage (s : Sender) (b : UInt8) :
    (s.ackBuffer.overwrite (ackMessage b)).bytes[1]? = some b := by
  rw [Block.overwrite_full _ (show (ackMessage b).length = ackSize from rfl)]
  rfl

theorem Sender.onAck_other {b : UInt8} (hb : b ≠ charOf s.seqNum) :
    s.onAck (ackMessage b) =
      { s with ackBuffer := s.ackBuffer.overwrite (ackMessage b), phase := .sending } := by
  rw [Sender.onAck, if_neg]
  rintro ⟨-, hbyte⟩
  rw [ackBuffer_ackMessage] at hbyte
  exact hb (Option.some.inj hbyte)

private theorem Sender.onAck_current (s : Sender) :
    s.onAck (ackMessage (charOf s.seqNum)) =
      let s' := { s with ackBuffer := s.ackBuffer.overwrite (ackMessage (charOf s.seqNum)) }
      let s' := if 0 ≤ s.seqNum then { s' with seqNum := (s.seqNum + 1) % seqSize } else s'
      if s'.seqNum = -1 then { s' with phase := .complete }
      else Sender.nextPacket { s' with chunkIndex := s'.chunkIndex + 1 } := by
  rw [Sender.onAck, if_pos ⟨Nat.succ_pos _, ackBuffer_ackMessage _ _⟩]

theorem Sender.At.onAck_chunk (h : s.At names file) (hchunk : s.chunkIndex < numChunks file) :
    (s.onAck (ackMessage (charOf (seqNumber file s.chunkIndex)))).At names file ∧
      (s.onAck (ackMessage (charOf (seqNumber file s.chunkIndex)))).chunkIndex = s.chunkIndex + 1 ∧
      (s.onAck (ackMessage (charOf (seqNumber file s.chunkIndex)))).phase = .sending := by
  have hnumber : s.seqNum = s.chunkIndex % seqSize := by
    rw [h.seqNum, seqNumber, if_pos hchunk]
  have hpositive : 0 ≤ s.seqNum := by
    rw [hnumber, seqSize]
    omega
  have hnext : (s.seqNum + 1) % seqSize ≠ -1 := by
    rw [seqSize]
    omega
  rw [← h.seqNum, Sender.onAck_current]
  simp only [if_pos hpositive, if_neg hnext]
  refine ⟨Sender.nextPacket_at h.sameNames hchunk ?_ h.unread, rfl, rfl⟩
  show (s.seqNum + 1) % seqSize = ((s.chunkIndex + 1 : Nat) : Int) % seqSize
  rw [hnumber, seqSize]
  omega

theorem Sender.onAck_last (hlast : s.seqNum = -1) :
    s.onAck (ackMessage (charOf (-1))) =
      { s with ackBuffer := s.ackBuffer.overwrite (ackMessage (charOf (-1))), phase := .complete } := by
  rw [← hlast, Sender.onAck_current]
  simp only [hlast]
  rfl

theorem Sender.At.onAck_end (h : s.At names file) (hlast : numChunks file ≤ s.chunkIndex) :
    s.onAck (ackMessage (charOf (seqNumber file s.chunkIndex))) =
      { s with
        ackBuffer := s.ackBuffer.overwrite (ackMessage (charOf (seqNumber file s.chunkIndex)))
        phase := .complete } := by
  have hnumber : seqNumber file s.chunkIndex = -1 := by
    rw [seqNumber, if_neg (Nat.not_lt.mpr hlast)]
  rw [hnumber]
  exact Sender.onAck_last (h.seqNum.trans hnumber)

/-- The packet at hand carries the sequence number. -/
structure Sender.Numbered (s : Sender) : Prop where
  low : -1 ≤ s.seqNum
  high : s.seqNum < 128
  packet : seqNumReceived (recvBuffer s.packet) = charOf s.seqNum

private theorem Sender.Numbered.nextPacket (hlow : -1 ≤ s.seqNum) (hhigh : s.seqNum < 128) :
    s.nextPacket.Numbered := by
  unfold Sender.nextPacket
  refine ⟨?_, ?_, ?_⟩
  · dsimp only
    split <;> omega
  · dsimp only
    split <;> omega
  · rw [seqNumReceived_packetMessage]

theorem Sender.Numbered.start (names : Names) (file : List UInt8) (fresh : Block dataSize)
    (freshAck : Block ackSize) : (Sender.start names file fresh freshAck).Numbered :=
  .nextPacket (show (-1 : Int) ≤ 0 by decide) (show (0 : Int) < 128 by decide)

theorem Sender.Numbered.last_of_number (h : s.Numbered)
    (hnumber : seqNumReceived (recvBuffer s.packet) = charOf (-1)) : s.seqNum = -1 := by
  have hvalue := congrArg charValue (h.packet.symm.trans hnumber)
  have hlow := h.low
  rwa [charValue_charOf (by omega) h.high, charValue_charOf (by decide) (by decide)] at hvalue

/-- Whatever acknowledgement comes, the packet keeps its number or is a new one, and the end packet
stays. -/
theorem Sender.Numbered.onAck (h : s.Numbered) (b : UInt8) :
    (s.onAck (ackMessage b)).Numbered ∧ (s.seqNum = -1 → (s.onAck (ackMessage b)).seqNum = -1) := by
  have hkept {s' : Sender} (hnumber : s'.seqNum = s.seqNum) (hpacket : s'.packet = s.packet) :
      s'.Numbered ∧ (s.seqNum = -1 → s'.seqNum = -1) :=
    ⟨⟨hnumber ▸ h.low, hnumber ▸ h.high, by rw [hpacket, hnumber, h.packet]⟩, hnumber.trans⟩
  by_cases hb : b = charOf s.seqNum
  · subst hb
    by_cases hlast : s.seqNum = -1
    · have honAck := Sender.onAck_last hlast
      rw [← hlast] at honAck
      rw [honAck]
      exact hkept rfl rfl
    · have hpositive : 0 ≤ s.seqNum := by
        have := h.low
        omega
      have hnext : (s.seqNum + 1) % seqSize ≠ -1 := by
        rw [seqSize]
        omega
      rw [Sender.onAck_current]
      simp only [if_pos hpositive, if_neg hnext]
      refine ⟨.nextPacket ?_ ?_, fun hend => absurd hend hlast⟩
      · show -1 ≤ (s.seqNum + 1) % seqSize
        rw [seqSize]
        omega
      · show (s.seqNum + 1) % seqSize < 128
        rw [seqSize]
        omega
  · rw [Sender.onAck_other hb]
    exact hkept rfl rfl

/-- What the receiver finds in its buffer after a packet of the `j`-th chunk. -/
private structure Arrived (names : Names) (file : List UInt8) (j : Nat) (buffer : Memory) : Prop where
  number : seqNumReceived buffer = charOf (seqNumber file j)
  crc : crcReceived buffer = crcCalculated buffer
  path : pathOf buffer = recvPath names.subdir.bytes names.fileName.bytes
  data : recvData buffer = chunk file j

private theorem PacketOf.arrived {j : Nat} (h : PacketOf names file j bytes) :
    Arrived names file j (recvBuffer bytes) := by
  obtain ⟨data, hdata, hbytes⟩ := h
  rw [hbytes]
  constructor
  · rw [seqNumReceived_packetMessage]
  · rw [crc_packetMessage]
  · rw [pathOf_packetMessage]
  · rw [recvData_packetMessage _ _ _ _ (chunk_length_le file j), hdata]

theorem Receiver.receive_end {j : Nat} (hpacket : PacketOf names file j bytes) (hlast : numChunks file ≤ j) :
    rc.receive bytes =
      ⟨{ rc with running := false }, [ackMessage (charOf (seqNumber file j))], []⟩ := by
  have hnumber : seqNumber file j = -1 := by
    rw [seqNumber, if_neg (Nat.not_lt.mpr hlast)]
  simp only [Receiver.receive, hpacket.arrived.number, hnumber, if_pos]

private theorem Receiver.receive_chunk {j : Nat} (hpacket : PacketOf names file j bytes)
    (hchunk : j < numChunks file) :
    rc.receive bytes =
      if (j : Int) % seqSize < rc.seqNum then ⟨rc, [ackMessage (charOf (seqNumber file j))], []⟩
      else if (j : Int) % seqSize > rc.seqNum ∧ rc.seqNum + seqSize > (j : Int) % seqSize then
        ⟨rc, [ackMessage (charOf (seqNumber file j))], []⟩
      else ⟨rc.write (recvPath names.subdir.bytes names.fileName.bytes) (chunk file j),
        [ackMessage (charOf (seqNumber file j))], [chunk file j]⟩ := by
  have hnumber : seqNumber file j = j % seqSize := by
    rw [seqNumber, if_pos hchunk]
  have hrange : 0 ≤ (j : Int) % seqSize ∧ (j : Int) % seqSize < 128 := by
    rw [seqSize]
    omega
  have hvalue : charValue (charOf (seqNumber file j)) = j % seqSize := by
    rw [hnumber, charValue_charOf (by omega) hrange.2]
  have hnot_end : charOf (seqNumber file j) ≠ charOf (-1) := by
    intro heq
    rw [heq, charValue_charOf (by decide) (by decide)] at hvalue
    omega
  simp only [Receiver.receive, hpacket.arrived.number, if_neg hnot_end, hvalue, hpacket.arrived.crc,
    ne_eq, not_true_eq_false, if_false, hpacket.arrived.path, hpacket.arrived.data]

theorem Receiver.receive_expected {j : Nat} (hpacket : PacketOf names file j bytes)
    (hchunk : j < numChunks file) (hexpected : rc.seqNum = j % seqSize) :
    rc.receive bytes =
      ⟨rc.write (recvPath names.subdir.bytes names.fileName.bytes) (chunk file j),
        [ackMessage (charOf (seqNumber file j))], [chunk file j]⟩ := by
  rw [Receiver.receive_chunk hpacket hchunk, if_neg (by omega), if_neg (by omega)]

theorem Receiver.receive_other {j : Nat} (hpacket : PacketOf names file j bytes)
    (hchunk : j < numChunks file) (hother : rc.seqNum ≠ j % seqSize) (hpositive : 0 ≤ rc.seqNum) :
    rc.receive bytes = ⟨rc, [ackMessage (charOf (seqNumber file j))], []⟩ := by
  rw [Receiver.receive_chunk hpacket hchunk]
  by_cases hlow : (j : Int) % seqSize < rc.seqNum
  · rw [if_pos hlow]
  · rw [if_neg hlow, if_pos]
    rw [seqSize] at hlow hother ⊢
    omega

theorem Receiver.receive_running (rc : Receiver) (datagram : List UInt8) (hrunning : rc.running = true) :
    (rc.receive datagram).receiver.running = false ↔ seqNumReceived (recvBuffer datagram) = charOf (-1) := by
  unfold Receiver.receive
  dsimp only
  by_cases hend : seqNumReceived (recvBuffer datagram) = charOf (-1)
  · simp [hend]
  · rw [if_neg hend, iff_false_right hend, Bool.not_eq_false]
    split
    · exact hrunning
    · split
      · exact hrunning
      · split
        · exact hrunning
        · exact hrunning

theorem Receiver.receive_acks (rc : Receiver) (datagram : List UInt8) {ack : List UInt8}
    (hack : ack ∈ (rc.receive datagram).acks) : ack = ackMessage (seqNumReceived (recvBuffer datagram)) := by
  simp only [Receiver.receive] at hack
  split at hack
  · exact List.mem_singleton.mp hack
  · split at hack
    · cases hack
    · split at hack
      · exact List.mem_singleton.mp hack
      · split at hack
        · exact List.mem_singleton.mp hack
        · exact List.mem_singleton.mp hack

end Comp556.Transfer
