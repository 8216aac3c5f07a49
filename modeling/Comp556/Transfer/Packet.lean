import Comp556.Foundation.Memory
import Mathlib.Algebra.Group.Int.Defs

/-!
# Packets of the file transfer

What `sendfile` puts into a packet and what `recvfile` reads from one. A packet is a header (a zero
byte, the sequence number, the length of the data, the names of the directory and the file), room
for a full chunk of data, and the CRC of all of these.
-/

namespace Comp556.Transfer

def seqSize : Int := 128
def ackSize : Nat := 3
def headerSize : Nat := 74
def dataSize : Nat := 20000
def crcSize : Nat := 4
def packetSize : Nat := headerSize + dataSize + crcSize

/-- `(char)v`. -/
def charOf (v : Int) : UInt8 := (Int8.ofInt v).toUInt8

/-- The value of a `char`, which is signed. -/
def charValue (c : UInt8) : Int := c.toInt8.toInt

theorem charValue_charOf {v : Int} (hlow : -128 ≤ v) (hhigh : v < 128) : charValue (charOf v) = v := by
  rw [charValue, charOf, Int8.toInt8_toUInt8, Int8.toInt_ofInt_of_le hlow hhigh]

def crcBit (crc : UInt32) : UInt32 :=
  let mask := 0 - (crc &&& 1)
  (crc >>> 1) ^^^ (0xEDB88320 &&& mask)

def crcByte (crc : UInt32) (b : UInt8) : UInt32 := Nat.repeat crcBit 8 (crc ^^^ b.toUInt32)

def crc32 (buf : List UInt8) : UInt32 := ~~~(buf.foldl crcByte 0xFFFFFFFF)

example : crc32 [0x31, 0x32, 0x33, 0x34, 0x35, 0x36, 0x37, 0x38, 0x39] = 0xCBF43926 := by
  decide +kernel

/-- The 50 and 20 bytes found at the names of the directory and the file. -/
structure Names where
  subdir : Block 50
  fileName : Block 20

def packetBody (seqNum : Int) (dataLen : Nat) (names : Names) (sendfileData : Block dataSize) : Memory :=
  let packetMessage : Memory := fun _ => 0
  let packetMessage := packetMessage.store 0 [0]
  let packetMessage := packetMessage.store 1 [charOf seqNum]
  let packetMessage := packetMessage.store 2 (bytes16 (htons (UInt16.ofNat dataLen)))
  let packetMessage := packetMessage.store 4 names.subdir.bytes
  let packetMessage := packetMessage.store 54 names.fileName.bytes
  packetMessage.store headerSize sendfileData.bytes

/-- The bytes handed to `sendto`. -/
def packetMessage (seqNum : Int) (dataLen : Nat) (names : Names) (sendfileData : Block dataSize) :
    List UInt8 :=
  let body := packetBody seqNum dataLen names sendfileData
  let crc := crc32 (body.load 0 (headerSize + dataSize))
  (body.store (headerSize + dataSize) (bytes32 (htonl crc))).load 0 packetSize

/-- `recv_buffer` after a datagram has been received into it. -/
def recvBuffer (datagram : List UInt8) : Memory :=
  Memory.store (fun _ => 0) 0 (datagram.take packetSize)

def seqNumReceived (buffer : Memory) : UInt8 := buffer 1

/-- `data_len`: the sign of the `short` is carried into the `size_t`. -/
def dataLen (buffer : Memory) : Nat := ((ntohs (buffer.load16 2)).toInt16.toInt % 2 ^ 64).toNat

def recvData (buffer : Memory) : List UInt8 := buffer.load headerSize (dataLen buffer)

def crcReceived (buffer : Memory) : UInt32 := ntohl (buffer.load32 (headerSize + dataSize))
def crcCalculated (buffer : Memory) : UInt32 := crc32 (buffer.load 0 (headerSize + dataSize))

def cString (bytes : List UInt8) : List UInt8 := bytes.takeWhile (· ≠ 0)

/-- `"%s/%s.recv"` of the two names. -/
def recvPath (subdir fileName : List UInt8) : List UInt8 :=
  cString subdir ++ [0x2F] ++ cString fileName ++ [0x2E, 0x72, 0x65, 0x63, 0x76]

def pathOf (buffer : Memory) : List UInt8 := recvPath (buffer.load 4 50) (buffer.load 54 20)

/-- The bytes handed to `sendto` in reply to a packet with this sequence number. -/
def ackMessage (seqNumReceived : UInt8) : List UInt8 := [0, seqNumReceived, 0]

section Arrival

variable (seqNum : Int) (length : Nat) (names : Names) (data : Block dataSize)

private theorem body_load_seqNum : (packetBody seqNum length names data).load 1 1 = [charOf seqNum] := by
  unfold packetBody headerSize
  rw [Memory.load_store_outside _ _ _ _ _ (by omega), Memory.load_store_outside _ _ _ _ _ (by omega),
    Memory.load_store_outside _ _ _ _ _ (by omega), Memory.load_store_outside _ _ _ _ _ (by omega),
    Memory.load_store_full _ _ [charOf seqNum] List.length_singleton]

private theorem body_load_length :
    (packetBody seqNum length names data).load 2 2 = bytes16 (htons (UInt16.ofNat length)) := by
  unfold packetBody headerSize
  rw [Memory.load_store_outside _ _ _ _ _ (by omega), Memory.load_store_outside _ _ _ _ _ (by omega),
    Memory.load_store_outside _ _ _ _ _ (by omega), Memory.load_store_full _ _ _ (bytes16_length _)]

private theorem body_load_subdir : (packetBody seqNum length names data).load 4 50 = names.subdir.bytes := by
  unfold packetBody headerSize
  rw [Memory.load_store_outside _ _ _ _ _ (by omega), Memory.load_store_outside _ _ _ _ _ (by omega),
    Memory.load_store_full _ _ _ names.subdir.length_eq]

private theorem body_load_fileName :
    (packetBody seqNum length names data).load 54 20 = names.fileName.bytes := by
  unfold packetBody headerSize
  rw [Memory.load_store_outside _ _ _ _ _ (by omega), Memory.load_store_full _ _ _ names.fileName.length_eq]

private def packetCrc : UInt32 :=
  crc32 ((packetBody seqNum length names data).load 0 (headerSize + dataSize))

private theorem load_arrived (offset width : Nat) (h : offset + width ≤ packetSize) :
    (recvBuffer (packetMessage seqNum length names data)).load offset width =
      ((packetBody seqNum length names data).store (headerSize + dataSize)
        (bytes32 (htonl (packetCrc seqNum length names data)))).load offset width := by
  have hsize : (packetMessage seqNum length names data).length ≤ packetSize := by
    simp [packetMessage]
  rw [recvBuffer, List.take_of_length_le hsize, packetMessage, Memory.load_image _ _ h, packetCrc]

private theorem load_arrived_body (offset width : Nat) (h : offset + width ≤ headerSize + dataSize) :
    (recvBuffer (packetMessage seqNum length names data)).load offset width =
      (packetBody seqNum length names data).load offset width := by
  rw [load_arrived seqNum length names data _ _ (Nat.le_trans h (Nat.le_add_right _ _)),
    Memory.load_store_outside _ _ _ _ _ (.inl h)]

theorem seqNumReceived_packetMessage :
    seqNumReceived (recvBuffer (packetMessage seqNum length names data)) = charOf seqNum := by
  have hload := load_arrived_body seqNum length names data 1 1 (by decide)
  rw [body_load_seqNum] at hload
  exact List.head_eq_of_cons_eq hload

theorem dataLen_packetMessage (hlength : length ≤ dataSize) :
    dataLen (recvBuffer (packetMessage seqNum length names data)) = length := by
  have hshort : length < 2 ^ 15 := by
    unfold dataSize at hlength
    omega
  have hload := load_arrived_body seqNum length names data 2 2 (by decide)
  rw [body_load_length] at hload
  have hsigned : (UInt16.ofNat length).toInt16.toInt = length := Int16.toInt_ofNat_of_lt hshort
  rw [dataLen, Memory.load16_of_bytes hload, ntohs_htons, hsigned]
  omega

theorem recvData_packetMessage (hlength : length ≤ dataSize) :
    recvData (recvBuffer (packetMessage seqNum length names data)) = data.bytes.take length := by
  rw [recvData, dataLen_packetMessage seqNum length names data hlength,
    load_arrived_body seqNum length names data _ _ (by omega), packetBody,
    Memory.load_store_prefix _ _ _ _ (data.length_eq.symm ▸ hlength)]

theorem subdir_packetMessage :
    (recvBuffer (packetMessage seqNum length names data)).load 4 50 = names.subdir.bytes := by
  rw [load_arrived_body seqNum length names data _ _ (by decide), body_load_subdir]

theorem fileName_packetMessage :
    (recvBuffer (packetMessage seqNum length names data)).load 54 20 = names.fileName.bytes := by
  rw [load_arrived_body seqNum length names data _ _ (by decide), body_load_fileName]

theorem pathOf_packetMessage :
    pathOf (recvBuffer (packetMessage seqNum length names data)) =
      recvPath names.subdir.bytes names.fileName.bytes := by
  rw [pathOf, subdir_packetMessage, fileName_packetMessage]

theorem crc_packetMessage :
    crcReceived (recvBuffer (packetMessage seqNum length names data)) =
      crcCalculated (recvBuffer (packetMessage seqNum length names data)) := by
  have hload := load_arrived seqNum length names data (headerSize + dataSize) 4 (by decide)
  rw [Memory.load_store_full _ _ _ (bytes32_length _)] at hload
  rw [crcReceived, Memory.load32_of_bytes hload, ntohl_htonl, crcCalculated,
    load_arrived_body seqNum length names data _ _ (by omega), packetCrc]

end Arrival

end Comp556.Transfer
