import Comp556.Transfer.Burst
import Comp556.Transfer.Endpoints

/-!
# Corrupt packets

`recvfile` looks at the sequence byte and at the length field before it checks the CRC: the byte of
the end packet ends the transfer, and the length is the number of bytes copied out of the buffer.
-/

namespace Comp556.Transfer

/-- The length field as the `short` it is read as. -/
def lengthField (buffer : Memory) : Int := (ntohs (buffer.load16 2)).toInt16.toInt

/-- The places and lengths of the `memcpy`s out of `recv_buffer` before the CRC is checked. -/
def copies (buffer : Memory) : List (Nat × Nat) :=
  (1, 1) :: if seqNumReceived buffer = charOf (-1) then []
    else [(4, 50), (54, 20), (headerSize, dataLen buffer)]

/-- The datagram leaves `recvfile` and its files as they were, is not acknowledged, and nothing is
copied from behind the end of the buffer. -/
structure NoEffect (rc : Receiver) (datagram : List UInt8) : Prop where
  kept : (rc.receive datagram).receiver = rc
  silent : (rc.receive datagram).acks = []
  unwritten : (rc.receive datagram).writes = []
  inBuffer : ∀ copy ∈ copies (recvBuffer datagram), copy.1 + copy.2 ≤ packetSize

private theorem lengthField_range (buffer : Memory) :
    -2 ^ 15 ≤ lengthField buffer ∧ lengthField buffer < 2 ^ 15 :=
  ⟨Int16.le_toInt _, Int16.toInt_lt _⟩

/-- A negative length becomes an enormous `size_t`. -/
private theorem dataLen_le_iff (buffer : Memory) :
    headerSize + dataLen buffer ≤ packetSize ↔
      0 ≤ lengthField buffer ∧ lengthField buffer ≤ dataSize + crcSize := by
  have hrange := lengthField_range buffer
  have hlength : dataLen buffer = (lengthField buffer % 2 ^ 64).toNat := rfl
  unfold packetSize headerSize dataSize crcSize
  omega

private theorem copies_inBuffer_iff {buffer : Memory} (hnumber : seqNumReceived buffer ≠ charOf (-1)) :
    (∀ copy ∈ copies buffer, copy.1 + copy.2 ≤ packetSize) ↔
      0 ≤ lengthField buffer ∧ lengthField buffer ≤ dataSize + crcSize := by
  rw [← dataLen_le_iff, copies, if_neg hnumber]
  constructor
  · intro h
    exact h (headerSize, dataLen buffer) (by simp)
  · intro h copy hcopy
    simp only [List.mem_cons, List.not_mem_nil, or_false] at hcopy
    rcases hcopy with rfl | rfl | rfl | rfl
    · decide
    · decide
    · decide
    · exact h

private theorem load_recvBuffer (datagram : List UInt8) (hlength : datagram.length = packetSize) :
    (recvBuffer datagram).load 0 (headerSize + dataSize) = datagram.take (headerSize + dataSize) := by
  rw [recvBuffer, List.take_of_length_le (Nat.le_of_eq hlength), Memory.load_store_prefix]
  rw [hlength]
  decide

private theorem load_mangled (datagram : List UInt8) {k : Nat} (b : UInt8) {offset width : Nat}
    (h : k < offset ∨ offset + width ≤ k) :
    (recvBuffer (datagram.set k b)).load offset width = (recvBuffer datagram).load offset width := by
  apply List.map_congr_left
  intro i hi
  have hw := List.mem_range.mp hi
  have hne : k ≠ offset + i := by omega
  simp [recvBuffer, Memory.store, List.getElem?_take, List.getElem?_set_ne hne]

/-- A packet with a matching CRC has none after one byte of its header or its data is altered. -/
private theorem crc_mangled {datagram : List UInt8} (hlength : datagram.length = packetSize)
    (hcrc : crcReceived (recvBuffer datagram) = crcCalculated (recvBuffer datagram)) {k : Nat} {b : UInt8}
    (hk : k < headerSize + dataSize) (hne : datagram[k]? ≠ some b) :
    crcReceived (recvBuffer (datagram.set k b)) ≠ crcCalculated (recvBuffer (datagram.set k b)) := by
  have hset : (datagram.set k b).length = packetSize := by
    rw [List.length_set, hlength]
  have hin : k < datagram.length := hlength ▸ Nat.lt_add_right crcSize hk
  have hfield : crcReceived (recvBuffer (datagram.set k b)) = crcReceived (recvBuffer datagram) := by
    rw [crcReceived, Memory.load32, load_mangled _ _ (.inl hk), crcReceived, Memory.load32]
  have htake : k < (datagram.take (headerSize + dataSize)).length := by
    rw [List.length_take]
    exact Nat.lt_min.mpr ⟨hk, hin⟩
  have hbyte : (datagram.take (headerSize + dataSize))[k] ≠ b := by
    rw [List.getElem_take]
    rw [List.getElem?_eq_getElem hin] at hne
    exact fun heq => hne (congrArg some heq)
  have hburst := (Burst.set htake hbyte).crc32_ne
  rw [hfield, hcrc, crcCalculated, crcCalculated, load_recvBuffer _ hlength, load_recvBuffer _ hset,
    List.take_set]
  exact hburst

private theorem recvBuffer_apply {datagram : List UInt8} (hlength : datagram.length = packetSize) {k : Nat}
    (hk : k < packetSize) : datagram[k]? = some (recvBuffer datagram k) := by
  have hin : k < datagram.length := hlength ▸ hk
  rw [recvBuffer, List.take_of_length_le (Nat.le_of_eq hlength), Memory.store, if_pos (Nat.zero_le _),
    Nat.sub_zero, List.getElem?_eq_getElem hin, Option.getD_some]

def zeroPacket : List UInt8 :=
  packetMessage 0 1 ⟨Block.zeros 50, Block.zeros 20⟩ (Block.zeros dataSize)

private theorem zeroPacket_length : zeroPacket.length = packetSize := by
  simp [zeroPacket, packetMessage]

private theorem zeroPacket_number : recvBuffer zeroPacket 1 = 0 :=
  seqNumReceived_packetMessage 0 1 _ _

private theorem zeroPacket_data : recvBuffer zeroPacket headerSize = 0 := by
  have hload : recvData (recvBuffer zeroPacket) = [0] :=
    recvData_packetMessage 0 1 _ (Block.zeros dataSize) (by decide)
  rw [recvData, zeroPacket, dataLen_packetMessage 0 1 _ _ (by decide)] at hload
  exact List.head_eq_of_cons_eq hload

private theorem zeroPacket_lengthField : lengthField (recvBuffer zeroPacket) = 1 := by
  have hlength : (lengthField (recvBuffer zeroPacket) % 2 ^ 64).toNat = 1 :=
    dataLen_packetMessage 0 1 _ (Block.zeros dataSize) (by decide)
  have hrange := lengthField_range (recvBuffer zeroPacket)
  omega

private theorem mangledNumber_crc : crcReceived (recvBuffer (zeroPacket.set 1 0xFF)) ≠
    crcCalculated (recvBuffer (zeroPacket.set 1 0xFF)) := by
  apply crc_mangled zeroPacket_length (crc_packetMessage 0 1 _ _) (by decide)
  rw [recvBuffer_apply zeroPacket_length (by decide), zeroPacket_number]
  decide

private theorem mangledData_crc : crcReceived (recvBuffer (zeroPacket.set headerSize 1)) ≠
    crcCalculated (recvBuffer (zeroPacket.set headerSize 1)) := by
  apply crc_mangled zeroPacket_length (crc_packetMessage 0 1 _ _) (by decide)
  rw [recvBuffer_apply zeroPacket_length (by decide), zeroPacket_data]
  decide

/-- A datagram whose CRC does not match has no effect if and only if its sequence byte is not the one of the
end packet and its length field does not lead out of the buffer. -/
theorem corrupt_noEffect_iff (rc : Receiver) {datagram : List UInt8}
    (hcrc : crcReceived (recvBuffer datagram) ≠ crcCalculated (recvBuffer datagram)) :
    NoEffect rc datagram ↔ seqNumReceived (recvBuffer datagram) ≠ charOf (-1) ∧
      0 ≤ lengthField (recvBuffer datagram) ∧ lengthField (recvBuffer datagram) ≤ dataSize + crcSize := by
  by_cases hnumber : seqNumReceived (recvBuffer datagram) = charOf (-1)
  · have hack : (rc.receive datagram).acks ≠ [] := by
      simp [Receiver.receive, hnumber]
    exact iff_of_false (fun h => hack h.silent) fun h => h.1 hnumber
  · have hdropped : rc.receive datagram = ⟨rc, [], []⟩ := by
      simp only [Receiver.receive, if_neg hnumber, if_pos hcrc]
    rw [and_iff_right hnumber, ← copies_inBuffer_iff hnumber]
    constructor
    · exact NoEffect.inBuffer
    · intro h
      exact ⟨by rw [hdropped], by rw [hdropped], by rw [hdropped], h⟩

theorem mangledData_noEffect : NoEffect (Receiver.start fun _ => none) (zeroPacket.set headerSize 1) := by
  have hnumber : recvBuffer (zeroPacket.set headerSize 1) 1 = 0 := by
    have hload : (recvBuffer (zeroPacket.set headerSize 1)).load 1 1 = (recvBuffer zeroPacket).load 1 1 :=
      load_mangled _ _ (.inr (by decide))
    exact (List.head_eq_of_cons_eq hload).trans zeroPacket_number
  have hfield : lengthField (recvBuffer (zeroPacket.set headerSize 1)) =
    lengthField (recvBuffer zeroPacket) := by
    rw [lengthField, Memory.load16, load_mangled _ _ (.inr (by decide)), lengthField, Memory.load16]
  apply (corrupt_noEffect_iff (Receiver.start fun _ => none) mangledData_crc).mpr
  rw [seqNumReceived, hnumber, hfield, zeroPacket_lengthField]
  decide

/-- The packet of a chunk whose number was mangled to the end packet's ends the transfer. -/
theorem mangledNumber_hasEffect :
    crcReceived (recvBuffer (zeroPacket.set 1 0xFF)) ≠ crcCalculated (recvBuffer (zeroPacket.set 1 0xFF)) ∧
      ¬ NoEffect (Receiver.start fun _ => none) (zeroPacket.set 1 0xFF) := by
  refine ⟨mangledNumber_crc, ?_⟩
  intro h
  have hnumber : seqNumReceived (recvBuffer (zeroPacket.set 1 0xFF)) = charOf (-1) := by
    have hlength : (zeroPacket.set 1 0xFF).length = packetSize := by
      rw [List.length_set, zeroPacket_length]
    have hbyte := recvBuffer_apply hlength (show 1 < packetSize by decide)
    rw [List.getElem?_set_self (by rw [zeroPacket_length]; decide)] at hbyte
    exact (Option.some.inj hbyte).symm
  have hack := h.silent
  simp [Receiver.receive, hnumber] at hack

end Comp556.Transfer
