import Comp556.Routing.DistanceVector

/-!
# Distance-vector packets

What the loop of `recv` reads from a packet that `send_DV` has built.
-/

namespace Comp556.Dv

/-- The entries that `send_DV` announces to `destId`, in the order it writes them. -/
def announced (r : Router) (destId : UInt16) : List (UInt16 × UInt16) :=
  r.routingTable.entries.map fun e => (e.1, announcedCost destId e.1 e.2)

private theorem writeEntry_eq (destId : UInt16) (i : Nat) (b : Buffer) (e : UInt16 × Route) :
    writeEntry destId (i, b) e =
      (i + 1, b.storePair (8 + i * 4) (htons e.1) (htons (announcedCost destId e.1 e.2))) := by
  have hsecond : 10 + i * 4 = 8 + i * 4 + 2 := by omega
  rw [writeEntry, hsecond]
  rfl

/-! The loop of `send_DV` from entry `i` on fills its own slots and leaves what is before them. -/

section WriteEntries

variable (destId : UInt16) (l : List (UInt16 × Route)) (i : Nat) (b : Buffer)

private theorem writeEntries_type : (l.foldl (writeEntry destId) (i, b)).2.memory 0 = b.memory 0 := by
  induction l generalizing i b with
  | nil => rfl
  | cons e l ih => rw [List.foldl_cons, writeEntry_eq, ih, Buffer.storePair_apply_before _ _ _ (by omega)]

private theorem writeEntries_before {at_ : Nat} (h : at_ + 2 ≤ 8 + i * 4) :
    (l.foldl (writeEntry destId) (i, b)).2.memory.load16 at_ = b.memory.load16 at_ := by
  induction l generalizing i b with
  | nil => rfl
  | cons e l ih =>
    rw [List.foldl_cons, writeEntry_eq, ih _ _ (by omega), Buffer.load16_storePair_of_apart _ _ _ (.inl h)]

private theorem writeEntries_slots {k : Nat} (hk : k < l.length) :
    (l.foldl (writeEntry destId) (i, b)).2.memory.load16 (8 + (i + k) * 4) = htons l[k].1 ∧
      (l.foldl (writeEntry destId) (i, b)).2.memory.load16 (8 + (i + k) * 4 + 2) =
        htons (announcedCost destId l[k].1 l[k].2) := by
  induction l generalizing i b k with
  | nil => cases hk
  | cons e l ih =>
    rw [List.foldl_cons, writeEntry_eq]
    cases k with
    | zero =>
      rw [Nat.add_zero, writeEntries_before _ _ _ _ (by omega), writeEntries_before _ _ _ _ (by omega)]
      exact Buffer.load16_storePair ..
    | succ k =>
      have hnext : i + (k + 1) = i + 1 + k := by omega
      rw [hnext]
      exact ih _ _ (Nat.lt_of_succ_lt_succ hk)

private theorem writeEntries_inBounds : (l.foldl (writeEntry destId) (i, b)).2.InBounds ↔
    b.InBounds ∧ (l = [] ∨ 8 + (i + l.length) * 4 ≤ b.capacity) := by
  induction l generalizing i b with
  | nil => simp
  | cons e l ih =>
    rw [List.foldl_cons, writeEntry_eq, ih, Buffer.inBounds_storePair, Buffer.storePair_capacity, and_assoc]
    apply and_congr_right
    intro _
    rw [or_iff_right (List.cons_ne_nil e l), List.length_cons]
    constructor
    · rintro ⟨hfit, rfl | hrest⟩
      · rw [List.length_nil]
        omega
      · omega
    · intro hfit
      exact ⟨by omega, .inr (by omega)⟩

end WriteEntries

theorem writeHeader_inBounds (env : Env) (r : Router) (destId size : UInt16) :
    (writeHeader env r destId size).InBounds ↔ 8 ≤ size.toNat := by
  simp only [writeHeader, Buffer.inBounds_store16, Buffer.inBounds_store8, Buffer.inBounds_malloc,
    true_and]
  change ((0 + 1 ≤ size.toNat ∧ 2 + 2 ≤ size.toNat) ∧ 4 + 2 ≤ size.toNat) ∧ 6 + 2 ≤ size.toNat ↔ _
  omega

variable (env : Env) (r : Router) (destId : UInt16)

theorem dvPacket_size :
    (dvPacket env r destId).size.toNat = (8 + r.routingTable.size * 4) % 65536 := by
  simp [dvPacket, UInt16.toNat_add, UInt16.toNat_mul]

private theorem dvPacket_header {at_ : Nat} (h : at_ + 2 ≤ 8) :
    (dvPacket env r destId).block.memory.load16 at_ =
      (writeHeader env r destId (dvPacket env r destId).size).memory.load16 at_ :=
  writeEntries_before destId r.routingTable.entries 0 _ h

theorem dvPacket_type : PacketType.ofCode ((dvPacket env r destId).block.memory 0) = some .dv := by
  have hfirst : (dvPacket env r destId).block.memory 0 = PacketType.dv.code := by
    apply (writeEntries_type destId r.routingTable.entries 0 _).trans
    rw [writeHeader, Buffer.store16_apply_before _ _ (by omega), Buffer.store16_apply_before _ _ (by omega),
      Buffer.store16_apply_before _ _ (by omega)]
    rfl
  rw [hfirst]
  rfl

private theorem dvPacket_sizeField :
    ntohs ((dvPacket env r destId).block.memory.load16 2) = (dvPacket env r destId).size := by
  rw [dvPacket_header env r destId (by omega), writeHeader, Buffer.load16_store16_of_apart _ _ (by omega),
    Buffer.load16_store16_of_apart _ _ (by omega), Buffer.load16_store16, ntohs_htons]

theorem dvPacket_source : ntohs ((dvPacket env r destId).block.memory.load16 4) = r.routerId := by
  rw [dvPacket_header env r destId (by omega), writeHeader, Buffer.load16_store16_of_apart _ _ (by omega),
    Buffer.load16_store16, ntohs_htons]

private theorem dvPacket_dest : ntohs ((dvPacket env r destId).block.memory.load16 6) = destId := by
  rw [dvPacket_header env r destId (by omega), writeHeader, Buffer.load16_store16, ntohs_htons]

/-- The writes of `send_DV` stay in its block as long as the size fits in 16 bits. -/
theorem dvPacket_inBounds :
    (dvPacket env r destId).block.InBounds ↔ 8 + r.routingTable.size * 4 < 65536 := by
  have hwrites := writeEntries_inBounds destId r.routingTable.entries 0
    (writeHeader env r destId (dvPacket env r destId).size)
  have hsize := dvPacket_size env r destId
  apply hwrites.trans
  rw [writeHeader_inBounds]
  change 8 ≤ (dvPacket env r destId).size.toNat ∧ (r.routingTable.entries = [] ∨
    8 + (0 + r.routingTable.size) * 4 ≤ (dvPacket env r destId).size.toNat) ↔ _
  by_cases hnil : r.routingTable.entries = []
  · have hzero : r.routingTable.size = 0 := by simp [Table.size, hnil]
    rw [hzero] at hsize
    simp [hnil, hzero, hsize]
  · simp only [hnil, false_or]
    omega

/-- The entries that the loop of `recv` reads: all that were announced, or as many as the wrapped
size leaves. -/
private theorem read_announced :
    (loopOffsets 8 (dvPacket env r destId).size.toNat 4).map (fun i =>
      (ntohs ((dvPacket env r destId).block.memory.load16 i),
        ntohs ((dvPacket env r destId).block.memory.load16 (i + 2)))) =
      (announced r destId).take ((dvPacket env r destId).size.toNat / 4 - 2) := by
  have hsize := dvPacket_size env r destId
  have hlen : (announced r destId).length = r.routingTable.size := by simp [announced, Table.size]
  apply List.ext_getElem
  · rw [List.length_map, loopOffsets_length, List.length_take, hlen]
    omega
  · intro k hk _
    rw [List.length_map] at hk
    have hoffset := loopOffsets_getElem 8 (dvPacket env r destId).size.toNat 4 k hk
    rw [loopOffsets_length] at hk
    have hslots := writeEntries_slots destId r.routingTable.entries 0
      (writeHeader env r destId (dvPacket env r destId).size) (k := k)
      (by change k < r.routingTable.size; omega)
    have hat : 8 + (0 + k) * 4 = 8 + 4 * k := by omega
    rw [hat] at hslots
    obtain ⟨hid, hcost⟩ := hslots
    rw [List.getElem_map, List.getElem_take, hoffset]
    refine Prod.ext ?_ ?_
    · apply (congrArg ntohs hid).trans
      simp [announced]
    · apply (congrArg ntohs hcost).trans
      simp [announced]

private theorem announced_nodup : ((announced r destId).map Prod.fst).Nodup := by
  simpa [announced, List.map_map, Function.comp_def] using r.routingTable.nodup

private theorem mem_announced (d a : UInt16) :
    (d, a) ∈ announced r destId ↔
      ∃ route, r.routingTable.get? d = some route ∧ a = announcedCost destId d route := by
  simp only [announced, List.mem_map, Prod.mk.injEq, ← Table.mem_entries_iff]
  constructor
  · rintro ⟨⟨d, route⟩, he, rfl, rfl⟩
    exact ⟨route, he, rfl⟩
  · rintro ⟨route, he, rfl⟩
    exact ⟨(d, route), he, rfl, rfl⟩

private theorem readTable_lookup (env' : Env) (d : UInt16) :
    (readTable env' (dvPacket env r destId).block.memory (dvPacket env r destId).size).get? d =
      ((announced r destId).take ((dvPacket env r destId).size.toNat / 4 - 2)).lookup d := by
  have hnodup := (announced_nodup r destId).sublist
    ((List.take_sublist ((dvPacket env r destId).size.toNat / 4 - 2) _).map Prod.fst)
  rw [← Table.get?_foldl_insert_nodup env'.layout hnodup, ← read_announced, List.foldl_map]
  rfl

private theorem mem_take_announced {env' : Env} {d a : UInt16}
    (h : (readTable env' (dvPacket env r destId).block.memory (dvPacket env r destId).size).get? d = some a) :
    (d, a) ∈ (announced r destId).take ((dvPacket env r destId).size.toNat / 4 - 2) := by
  rw [readTable_lookup, List.lookup_eq_some_iff] at h
  obtain ⟨before, after, htake, -⟩ := h
  simp [htake]

/-- What `recv` reads is announced: a listed cost belongs to a route. -/
theorem readTable_dvPacket {env' : Env} {d a : UInt16}
    (h : (readTable env' (dvPacket env r destId).block.memory (dvPacket env r destId).size).get? d = some a) :
    ∃ route, r.routingTable.get? d = some route ∧ a = announcedCost destId d route :=
  (mem_announced r destId d a).mp (List.mem_of_mem_take (mem_take_announced env r destId h))

theorem readTable_size_le (env' : Env) :
    (readTable env' (dvPacket env r destId).block.memory (dvPacket env r destId).size).size ≤
      (dvPacket env r destId).size.toNat / 4 - 2 := by
  have hsub : (readTable env' (dvPacket env r destId).block.memory (dvPacket env r destId).size).keys ⊆
      ((announced r destId).take ((dvPacket env r destId).size.toNat / 4 - 2)).map Prod.fst := by
    intro d hd
    obtain ⟨a, ha⟩ := Option.isSome_iff_exists.mp ((Table.mem_keys_iff ..).mp hd)
    exact List.mem_map_of_mem (mem_take_announced env r destId ha)
  have hle := (List.subperm_of_subset (Table.nodup_keys _) hsub).length_le
  rw [Table.length_keys, List.length_map, List.length_take] at hle
  exact Nat.le_trans hle (Nat.min_le_left ..)

theorem readTable_of_inBounds (env' : Env) (h : (dvPacket env r destId).block.InBounds) (d : UInt16) :
    (readTable env' (dvPacket env r destId).block.memory (dvPacket env r destId).size).get? d =
      (r.routingTable.get? d).map (announcedCost destId d) := by
  have hsize := dvPacket_size env r destId
  have hfits := (dvPacket_inBounds env r destId).mp h
  have hlen : (announced r destId).length = r.routingTable.size := by simp [announced, Table.size]
  rw [readTable_lookup, List.take_of_length_le (by omega)]
  have htable : (⟨announced r destId, announced_nodup r destId⟩ : Table UInt16 UInt16).get? d =
      (r.routingTable.get? d).map (announcedCost destId d) := by
    apply Table.get?_eq_of_mem_iff
    intro a
    rw [mem_announced, Option.map_eq_some_iff]
    simp only [eq_comm]
  exact htable

/-- A table that a 16-bit size can carry is read back with exactly its destinations, at their costs, except
that what goes through the reader is poisoned; and the header names the length, the author and the reader. -/
theorem dvPacket_roundTrip (env env' : Env) (r : Router) (n : UInt16) (h : r.routingTable.size ≤ 16381) :
    let packet := dvPacket env r n
    let dvTable := readTable env' packet.block.memory packet.size
    (∀ d, d ∈ dvTable.keys ↔ d ∈ r.routingTable.keys) ∧
      (∀ d route, r.routingTable.get? d = some route →
        dvTable.get? d = some (if d ≠ n ∧ route.nextHop = n then infinityCost else route.cost)) ∧
      packet.block.InBounds ∧ packet.size.toNat = 8 + 4 * r.routingTable.size ∧
      ntohs (packet.block.memory.load16 2) = packet.size ∧
      ntohs (packet.block.memory.load16 4) = r.routerId ∧
      ntohs (packet.block.memory.load16 6) = n := by
  have hbounds : (dvPacket env r n).block.InBounds := (dvPacket_inBounds env r n).mpr (by omega)
  have hread := readTable_of_inBounds env r n env' hbounds
  have hsize := dvPacket_size env r n
  refine ⟨fun d => ?_, fun d route hroute => ?_, hbounds, by omega, dvPacket_sizeField env r n,
    dvPacket_source env r n, dvPacket_dest env r n⟩
  · rw [Table.mem_keys_iff, Table.mem_keys_iff, hread, Option.isSome_map]
  · rw [hread, hroute, Option.map_some, announcedCost]
    simp only [eq_comm (a := n), and_comm]

theorem sample_roundTrip :
    let r := { Router.init 1 1 .dv with routingTable := ⟨[(20, ⟨7, 10⟩), (10, ⟨2, 10⟩)], by decide⟩ }
    let packet := dvPacket (sampleEnv 0) r 10
    let dvTable := readTable (sampleEnv 1) packet.block.memory packet.size
    packet.size.toNat = 16 ∧ dvTable.get? 20 = some infinityCost ∧ dvTable.get? 10 = some 2 := by
  obtain ⟨-, hcosts, -, hsize, -⟩ := dvPacket_roundTrip (sampleEnv 0) (sampleEnv 1)
    { Router.init 1 1 .dv with routingTable := ⟨[(20, ⟨7, 10⟩), (10, ⟨2, 10⟩)], by decide⟩ } 10 (by decide)
  exact ⟨hsize, hcosts 20 ⟨7, 10⟩ rfl, hcosts 10 ⟨2, 10⟩ rfl⟩

end Comp556.Dv
