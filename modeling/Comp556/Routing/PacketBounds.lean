import Comp556.Routing.DvPacket
import Comp556.Routing.LsPacket

/-!
# Packets and their blocks

Which bytes the encoders write and the decoders read. Both sizes are 16 bits wide, and a table may have
more entries than such a size can carry.
-/

namespace Comp556

/-- The bytes that a loop over entries from `start` on reads, two at `i` and two at `i + 2`. -/
def entryBytes (start size : Nat) : List Nat :=
  (loopOffsets start size 4).flatMap fun i => List.range' i 2 ++ List.range' (i + 2) 2

theorem entryBytes_lt {start size : Nat} (heven : 4 ∣ size - start) :
    ∀ i ∈ entryBytes start size, i < size := by
  intro i hi
  obtain ⟨j, hj, hij⟩ := List.mem_flatMap.mp hi
  have hfit := loopOffsets_fit (by decide) heven hj
  rcases List.mem_append.mp hij with hlow | hhigh
  · have hlow := List.mem_range'_1.mp hlow
    omega
  · have hhigh := List.mem_range'_1.mp hhigh
    omega

private theorem entries_congr {start size : Nat} {m m' : Memory} (h : ∀ i ∈ entryBytes start size, m' i = m i)
    {j : Nat} (hj : j ∈ loopOffsets start size 4) :
    m'.load16 j = m.load16 j ∧ m'.load16 (j + 2) = m.load16 (j + 2) := by
  have hentry (i : Nat) (hi : i ∈ List.range' j 2 ++ List.range' (j + 2) 2) : m' i = m i :=
    h i (List.mem_flatMap.mpr ⟨j, hj, hi⟩)
  constructor
  · exact Memory.load16_congr fun i hi => hentry i (List.mem_append_left _ hi)
  · exact Memory.load16_congr fun i hi => hentry i (List.mem_append_right _ hi)

namespace Dv

/-- The bytes of a packet that `recv` reads. -/
def readBytes (r : Router) (msg : Memory) (size : UInt16) : List Nat :=
  List.range' 4 2 ++ if r.neighborTable.contains (ntohs (msg.load16 4)) then entryBytes 8 size.toNat else []

theorem readTable_congr (env : Env) {msg msg' : Memory} {size : UInt16}
    (h : ∀ i ∈ entryBytes 8 size.toNat, msg' i = msg i) : readTable env msg' size = readTable env msg size := by
  apply List.foldl_ext
  intro dvTable i hi
  obtain ⟨hid, hcost⟩ := entries_congr h hi
  rw [hid, hcost]

/-- `recv` depends on no other byte. -/
theorem recv_congr (env : Env) (port : UInt16) {msg msg' : Memory} {size : UInt16} {r : Router}
    (h : ∀ i ∈ readBytes r msg size, msg' i = msg i) :
      recv env port msg' size r = recv env port msg size r := by
  have hsource : msg'.load16 4 = msg.load16 4 :=
    Memory.load16_congr fun i hi => h i (List.mem_append_left _ hi)
  unfold recv
  rw [hsource]
  by_cases hknown : r.neighborTable.contains (ntohs (msg.load16 4)) = true
  · have htable : readTable env msg' size = readTable env msg size := by
      apply readTable_congr
      intro i hi
      apply h
      rw [readBytes, if_pos hknown]
      exact List.mem_append_right _ hi
    rw [htable]
  · rw [if_neg hknown, if_neg hknown]

theorem dvPacket_reads_iff (env : Env) (r : Router) (destId : UInt16) (reader : Router) :
    (∀ i ∈ readBytes reader (dvPacket env r destId).block.memory (dvPacket env r destId).size,
      i < (dvPacket env r destId).size.toNat) ↔ r.routingTable.size % 16384 ≤ 16381 := by
  have hsize := dvPacket_size env r destId
  constructor
  · intro h
    have hsource := h 5 (List.mem_append_left _ (by decide))
    omega
  · intro hfits i hi
    rcases List.mem_append.mp hi with hsource | hentry
    · have hsource := List.mem_range'_1.mp hsource
      omega
    · split at hentry
      · exact entryBytes_lt (by omega) i hentry
      · cases hentry

end Dv

namespace Ls

/-- The bytes of a packet that `recv_LS` reads; each packet it sends on is a copy of all of it. -/
def readBytes (env : Env) (port : UInt16) (msg : Packet) (r : Router) : List Nat :=
  List.range' 4 2 ++ List.range' 8 2 ++
    (if isOld r msg.block.memory then [] else entryBytes 12 msg.size.toNat) ++
    (recvLS env port msg r).2.flatMap fun _ => List.range msg.size.toNat

private theorem recvGraph_congr (env : Env) {msg msg' : Packet} (hsize : msg'.size = msg.size)
    (hsource : sourceOf msg'.block.memory = sourceOf msg.block.memory)
    (h : ∀ i ∈ entryBytes 12 msg.size.toNat, msg'.block.memory i = msg.block.memory i) (graph : Graph) :
    recvGraph env msg' graph = recvGraph env msg graph := by
  have hentries : readEntries msg'.block.memory msg'.size = readEntries msg.block.memory msg.size := by
    rw [readEntries, hsize]
    apply List.map_congr_left
    intro i hi
    obtain ⟨hid, hcost⟩ := entries_congr h hi
    rw [hid, hcost]
  rw [recvGraph, hentries, hsource, recvGraph]

/-- What `recv_LS` leaves in the router depends on no other byte. -/
theorem recvLS_congr (env : Env) (port : UInt16) {msg msg' : Packet} {r : Router} (hsize : msg'.size = msg.size)
    (h : ∀ i ∈ readBytes env port msg r, msg'.block.memory i = msg.block.memory i) :
    (recvLS env port msg' r).1 = (recvLS env port msg r).1 := by
  simp only [readBytes, List.mem_append] at h
  have hsource : sourceOf msg'.block.memory = sourceOf msg.block.memory :=
    congrArg ntohs (Memory.load16_congr fun i hi => h i (.inl (.inl (.inl hi))))
  have hsequence : sequenceOf msg'.block.memory = sequenceOf msg.block.memory :=
    congrArg (fun n => (ntohs n).toUInt64) (Memory.load16_congr fun i hi => h i (.inl (.inl (.inr hi))))
  have hold : isOld r msg'.block.memory = isOld r msg.block.memory := by
    rw [isOld, hsource, hsequence, isOld]
  unfold recvLS
  rw [hold, hsource, hsequence]
  by_cases hstale : isOld r msg.block.memory = true
  · simp only [hstale, if_true]
  · have hgraph :=
      recvGraph_congr env hsize hsource (fun i hi => h i (.inl (.inr (by rwa [if_neg hstale])))) r.graph
    simp only [hstale, hgraph]
    rfl

private theorem lsPacket_reads_iff (env env' : Env) (r : Router) (port : UInt16) (reader : Router) :
    (∀ i ∈ readBytes env' port (lsPacket env r) reader, i < (lsPacket env r).size.toNat) ↔
      r.neighborTable.size % 16384 ≤ 16380 := by
  have hsize := lsPacket_size_mod env r
  constructor
  · intro h
    have hsequence : 9 < (lsPacket env r).size.toNat := by
      apply h
      simp only [readBytes, List.mem_append]
      exact .inl (.inl (.inr (by decide)))
    omega
  · intro hfits i hi
    simp only [readBytes, List.mem_append] at hi
    rcases hi with ((hsource | hsequence) | hentry) | hcopy
    · have hsource := List.mem_range'_1.mp hsource
      omega
    · have hsequence := List.mem_range'_1.mp hsequence
      omega
    · split at hentry
      · cases hentry
      · exact entryBytes_lt (by omega) i hentry
    · obtain ⟨-, -, hcopy⟩ := List.mem_flatMap.mp hcopy
      exact List.mem_range.mp hcopy

end Ls

/-- Exactly when the writes of `send_DV` and of `update_LS`, and the reads of their packets in
`DVProImp::recv` and `recv_LS`, stay below the size. -/
theorem packets_inBounds_iff (env : Env) (r : Router) (destId : UInt16) :
    ((Dv.dvPacket env r destId).block.InBounds ↔ r.routingTable.size ≤ 16381) ∧
      ((Ls.lsPacket env r).block.InBounds ↔
        1 ≤ r.neighborTable.size % 16384 ∧ r.neighborTable.size % 16384 ≤ 16380) ∧
      (∀ reader,
        (∀ i ∈ Dv.readBytes reader (Dv.dvPacket env r destId).block.memory (Dv.dvPacket env r destId).size,
        i < (Dv.dvPacket env r destId).size.toNat) ↔ r.routingTable.size % 16384 ≤ 16381) ∧
      ∀ env' port reader, (∀ i ∈ Ls.readBytes env' port (Ls.lsPacket env r) reader,
        i < (Ls.lsPacket env r).size.toNat) ↔ r.neighborTable.size % 16384 ≤ 16380 := by
  refine ⟨?_, Ls.lsPacket_inBounds env r, Dv.dvPacket_reads_iff env r destId, ?_⟩
  · rw [Dv.dvPacket_inBounds]
    omega
  · intro env' port reader
    exact Ls.lsPacket_reads_iff env env' r port reader

/-- Without neighbours the block has 12 bytes, and the sequence number is written to 8 to 15. -/
theorem no_neighbors_outOfBounds :
    ¬ (Ls.lsPacket (sampleEnv 0) (Router.init 2 1 .ls)).block.InBounds := by
  decide

end Comp556
