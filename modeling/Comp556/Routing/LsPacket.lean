import Comp556.Routing.LinkState

/-!
# Link-state packets

What `recv_LS` reads from a packet that `update_LS` has built: the source, a sequence number cut to
16 bits, and entries that are all equal to the last one written.
-/

namespace Comp556.Ls

/-! A slot keeps the last neighbour written to it, and no other byte changes. -/

section WriteSlot

variable (neighborTable : NeighborTable) {b : Buffer} {i : Nat}

private theorem writeSlot_apart {at_ : Nat} (h : at_ + 2 ≤ i ∨ i + 4 ≤ at_) :
    (writeSlot neighborTable b i).memory.load16 at_ = b.memory.load16 at_ := by
  unfold writeSlot
  generalize neighborTable.entries = l
  induction l generalizing b with
  | nil => rfl
  | cons e l ih => exact ih.trans (b.load16_storePair_of_apart (htons e.1) (htons e.2.cost) h)

private theorem writeSlot_last {link : UInt16 × Link} (hlast : neighborTable.entries.getLast? = some link) :
    (writeSlot neighborTable b i).memory.load16 i = htons link.1 ∧
      (writeSlot neighborTable b i).memory.load16 (i + 2) = htons link.2.cost := by
  obtain ⟨init, hentries⟩ := List.getLast?_eq_some_iff.mp hlast
  rw [writeSlot, hentries, List.foldl_append]
  exact Buffer.load16_storePair ..

private theorem writeSlot_inBounds (h : i + 4 ≤ b.capacity) :
    (writeSlot neighborTable b i).capacity = b.capacity ∧
      ((writeSlot neighborTable b i).InBounds ↔ b.InBounds) := by
  unfold writeSlot
  generalize neighborTable.entries = l
  induction l generalizing b with
  | nil => exact ⟨rfl, Iff.rfl⟩
  | cons e l ih =>
    obtain ⟨hcapacity, hbounds⟩ := ih (b := b.storePair i (htons e.1) (htons e.2.cost)) h
    refine ⟨hcapacity, hbounds.trans ?_⟩
    rw [Buffer.inBounds_storePair]
    exact and_iff_left h

end WriteSlot

/-! The outer loop of `update_LS` over `n` slots fills them and leaves what is before them. -/

section WriteSlots

variable (neighborTable : NeighborTable)

private theorem writeSlots_before (n : Nat) {start at_ : Nat} (h : at_ + 2 ≤ start) (b : Buffer) :
    ((List.range' start n 4).foldl (writeSlot neighborTable) b).memory.load16 at_ = b.memory.load16 at_ := by
  induction n generalizing start b with
  | zero => rfl
  | succ n ih =>
    rw [List.range'_succ, List.foldl_cons, ih (by omega)]
    exact writeSlot_apart neighborTable (.inl h)

private theorem writeSlots_last {link : UInt16 × Link} (hlast : neighborTable.entries.getLast? = some link)
    {n k : Nat} (hk : k < n) (start : Nat) (b : Buffer) :
    ((List.range' start n 4).foldl (writeSlot neighborTable) b).memory.load16 (start + 4 * k) = htons link.1 ∧
      ((List.range' start n 4).foldl (writeSlot neighborTable) b).memory.load16 (start + 4 * k + 2) =
        htons link.2.cost := by
  induction n generalizing start b k with
  | zero => cases hk
  | succ n ih =>
    rw [List.range'_succ, List.foldl_cons]
    cases k with
    | zero =>
      rw [Nat.mul_zero, Nat.add_zero, writeSlots_before _ _ (by omega), writeSlots_before _ _ (by omega)]
      exact writeSlot_last neighborTable hlast
    | succ k =>
      have hnext : start + 4 * (k + 1) = start + 4 + 4 * k := by omega
      rw [hnext]
      exact ih (Nat.lt_of_succ_lt_succ hk) (start + 4) _

private theorem writeSlots_inBounds {offsets : List Nat} {b : Buffer} (h : ∀ i ∈ offsets, i + 4 ≤ b.capacity) :
    (offsets.foldl (writeSlot neighborTable) b).InBounds ↔ b.InBounds := by
  induction offsets generalizing b with
  | nil => exact Iff.rfl
  | cons i offsets ih =>
    obtain ⟨hcapacity, hbounds⟩ := writeSlot_inBounds neighborTable (h i List.mem_cons_self)
    rw [List.foldl_cons, ← hbounds]
    apply ih
    intro j hj
    rw [hcapacity]
    exact h j (List.mem_cons_of_mem _ hj)

end WriteSlots

section Packet

variable (env : Env) (r : Router)

theorem writeHeader_inBounds (size : UInt16) : (writeHeader env r size).InBounds ↔ 16 ≤ size.toNat := by
  simp only [writeHeader, Buffer.inBounds_store64, Buffer.inBounds_store16, Buffer.inBounds_store8,
    Buffer.inBounds_malloc, true_and]
  change ((0 + 1 ≤ size.toNat ∧ 2 + 2 ≤ size.toNat) ∧ 4 + 2 ≤ size.toNat) ∧ 8 + 8 ≤ size.toNat ↔ _
  omega

private theorem lsPacket_header {at_ : Nat} (h : at_ ≤ 10) :
    (lsPacket env r).block.memory.load16 at_ =
      (writeHeader env r (lsPacket env r).size).memory.load16 at_ :=
  writeSlots_before r.neighborTable _ (by omega) _

theorem lsPacket_type : PacketType.ofCode ((lsPacket env r).block.memory 0) = some .ls := by
  have hslot (neighborTable : NeighborTable) {i : Nat} (hi : 0 < i) (b : Buffer) :
      (writeSlot neighborTable b i).memory 0 = b.memory 0 := by
    unfold writeSlot
    generalize neighborTable.entries = l
    induction l generalizing b with
    | nil => rfl
    | cons e l ih => exact (ih (b.storePair i _ _)).trans (Buffer.storePair_apply_before b _ _ hi)
  have hslots (n start : Nat) (hstart : 0 < start) (b : Buffer) :
      ((List.range' start n 4).foldl (writeSlot r.neighborTable) b).memory 0 = b.memory 0 := by
    induction n generalizing start b with
    | zero => rfl
    | succ n ih =>
      rw [List.range'_succ, List.foldl_cons, ih (start + 4) (by omega)]
      exact hslot r.neighborTable hstart b
  have hfirst : (lsPacket env r).block.memory 0 = PacketType.ls.code :=
    (hslots _ 12 (by omega) _).trans rfl
  rw [hfirst]
  rfl

theorem sourceOf_lsPacket : sourceOf (lsPacket env r).block.memory = r.routerId := by
  rw [sourceOf, lsPacket_header env r (by omega), writeHeader,
    Buffer.load16_store64_of_apart _ _ (by omega), Buffer.load16_store16, ntohs_htons]

theorem sequenceOf_lsPacket :
    sequenceOf (lsPacket env r).block.memory = r.sequenceNum.toUInt16.toUInt64 := by
  have hstored (b : Buffer) (v : UInt64) : (b.store64 8 v).memory.load16 8 = v.toUInt16 :=
    b.memory.load16_store64 8 v
  rw [sequenceOf, lsPacket_header env r (by omega), writeHeader, hstored, UInt16.toUInt16_toUInt64,
    ntohs_htons]

theorem lsPacket_size_mod : (lsPacket env r).size.toNat = (12 + r.neighborTable.size * 4) % 65536 :=
  UInt16.toNat_ofNat'

theorem lsPacket_size (h : r.neighborTable.size ≤ 16380) :
    (lsPacket env r).size.toNat = 12 + r.neighborTable.size * 4 := by
  rw [lsPacket_size_mod]
  omega

/-- The writes of `update_LS` stay in its block if it has room for the sequence number. The slots
are inside it however the size has wrapped. -/
theorem lsPacket_inBounds : (lsPacket env r).block.InBounds ↔
    1 ≤ r.neighborTable.size % 16384 ∧ r.neighborTable.size % 16384 ≤ 16380 := by
  have hsize := lsPacket_size_mod env r
  have hslots : (lsPacket env r).block.InBounds ↔ (writeHeader env r (lsPacket env r).size).InBounds := by
    apply writeSlots_inBounds r.neighborTable
    intro i hi
    have hfit : i + 4 ≤ (lsPacket env r).size.toNat := loopOffsets_fit (by decide) (by omega) hi
    exact hfit
  rw [hslots, writeHeader_inBounds]
  omega

private theorem readEntries_lsPacket (h : r.neighborTable.size ≤ 16380) {link : UInt16 × Link}
    (hlast : r.neighborTable.entries.getLast? = some link) :
    readEntries (lsPacket env r).block.memory (lsPacket env r).size =
      List.replicate r.neighborTable.size (link.1, link.2.cost) := by
  have hsize := lsPacket_size env r h
  have hcount : (loopOffsets 12 (lsPacket env r).size.toNat 4).length = r.neighborTable.size := by
    rw [loopOffsets_length]
    omega
  apply List.ext_getElem
  · simpa [readEntries] using hcount
  · intro k hk _
    rw [readEntries, List.length_map] at hk
    have hslots := writeSlots_last r.neighborTable (n := ((lsPacket env r).size.toNat - 12 + 4 - 1) / 4) hlast
      (k := k) (by omega) 12 (writeHeader env r (lsPacket env r).size)
    simp only [readEntries, List.getElem_map, List.getElem_replicate, loopOffsets_getElem]
    exact Prod.ext ((congrArg ntohs hslots.1).trans (ntohs_htons _))
      ((congrArg ntohs hslots.2).trans (ntohs_htons _))

private theorem replicate_faithful_iff {last : UInt16 × Link}
    (hlast : r.neighborTable.entries.getLast? = some last) :
    (∀ neighborId cost,
      (neighborId, cost) ∈ List.replicate r.neighborTable.size (last.1, last.2.cost) ↔
        ∃ link, r.neighborTable.get? neighborId = some link ∧ link.cost = cost) ↔
      r.neighborTable.size ≤ 1 := by
  obtain ⟨init, hentries⟩ := List.getLast?_eq_some_iff.mp hlast
  have hlength : r.neighborTable.size = init.length + 1 := by simp [Table.size, hentries]
  simp only [List.mem_replicate, ← Table.mem_entries_iff]
  constructor
  · intro hall
    have hsame : ∀ e ∈ r.neighborTable.entries, e.1 = last.1 := by
      intro e he
      exact (Prod.mk.inj ((hall e.1 e.2.cost).mpr ⟨e.2, he, rfl⟩).2).1
    have hkeys : r.neighborTable.entries.map Prod.fst =
        List.replicate r.neighborTable.size last.1 := by
      simpa [List.eq_replicate_iff, Table.size] using fun a b hab => hsame (a, b) hab
    have hnodup := r.neighborTable.nodup
    rw [hkeys, List.nodup_replicate] at hnodup
    exact hnodup
  · intro hone neighborId cost
    have hinit : init = [] := List.eq_nil_of_length_eq_zero (by omega)
    simp only [hentries, hinit, List.nil_append, List.mem_singleton]
    constructor
    · rintro ⟨-, hpair⟩
      obtain ⟨rfl, rfl⟩ := Prod.mk.inj hpair
      exact ⟨last.2, rfl, rfl⟩
    · rintro ⟨link, rfl, rfl⟩
      exact ⟨by omega, rfl⟩

/-- The entries read from an advertisement are the neighbours with their costs exactly if there is at most
one neighbour. -/
theorem lsPacket_faithful_iff (h : r.neighborTable.size ≤ 16380) :
    (sourceOf (lsPacket env r).block.memory = r.routerId ∧
      ∀ neighborId cost,
        (neighborId, cost) ∈ readEntries (lsPacket env r).block.memory (lsPacket env r).size ↔
          ∃ link, r.neighborTable.get? neighborId = some link ∧ link.cost = cost) ↔
      r.neighborTable.size ≤ 1 := by
  rw [and_iff_right (sourceOf_lsPacket env r)]
  cases hlast : r.neighborTable.entries.getLast? with
  | none =>
    have hnil : r.neighborTable.entries = [] := List.getLast?_eq_none_iff.mp hlast
    have hzero : r.neighborTable.size = 0 := by simp [Table.size, hnil]
    have hsize := lsPacket_size env r h
    have hread : readEntries (lsPacket env r).block.memory (lsPacket env r).size = [] := by
      simp [readEntries, loopOffsets, hsize, hzero]
    have hget (n : UInt16) : r.neighborTable.get? n = none := by simp [Table.get?, hnil]
    simp [hread, hzero, hget]
  | some last =>
    rw [readEntries_lsPacket env r h hlast]
    exact replicate_faithful_iff r hlast

end Packet

/-- An LS-mode router 1 with the given neighbours at ports 0, 1, ... -/
def neighborsRouter (costs : List (UInt16 × UInt16)) : Router :=
  { Router.init 2 1 .ls with
    neighborTable := costs.zipIdx.foldl (fun t e =>
      t.insert (.front _) e.1.1 ⟨e.1.2, UInt16.ofNat e.2, 15000⟩) .empty }

theorem lsPacket_faithful_single :
    (sourceOf (lsPacket (sampleEnv 1) (neighborsRouter [(2, 5)])).block.memory = 1 ∧
      ∀ neighborId cost, (neighborId, cost) ∈
          readEntries (lsPacket (sampleEnv 1) (neighborsRouter [(2, 5)])).block.memory
            (lsPacket (sampleEnv 1) (neighborsRouter [(2, 5)])).size ↔
          ∃ link, (neighborsRouter [(2, 5)]).neighborTable.get? neighborId = some link ∧
            link.cost = cost) ↔ (neighborsRouter [(2, 5)]).neighborTable.size ≤ 1 :=
  lsPacket_faithful_iff (sampleEnv 1) (neighborsRouter [(2, 5)]) (by decide)

/-- With neighbours 2 and 3 both slots carry the same one. -/
theorem lsPacket_two_neighbors :
    (neighborsRouter [(2, 5), (3, 7)]).neighborTable.keys = [3, 2] ∧
      readEntries (lsPacket (sampleEnv 1) (neighborsRouter [(2, 5), (3, 7)])).block.memory
        (lsPacket (sampleEnv 1) (neighborsRouter [(2, 5), (3, 7)])).size = [(2, 5), (2, 5)] := by
  decide +kernel

theorem recvLS_of_old (env : Env) (port : UInt16) {msg : Packet} {r : Router}
    (h : isOld r msg.block.memory = true) : recvLS env port msg r = (r, []) :=
  if_pos h

theorem maxSequenceNum_of_new (env : Env) (port : UInt16) {msg : Packet} {r : Router}
    (h : isOld r msg.block.memory = false) :
    (recvLS env port msg r).1.maxSequenceNum = r.maxSequenceNum.insert env.layout
      (sourceOf msg.block.memory) (sequenceOf msg.block.memory) := by
  simp [recvLS, h, updateForwardingTable]

/-- The states `us k` in which router `u` issues its advertisement number `k`, counted from 0. What
happens to `u` in between does not touch its sequence number. -/
structure Issued (u : UInt16) (envs : Nat → Env) (us : Nat → Router) : Prop where
  routerId : ∀ k, (us k).routerId = u
  first : (us 0).sequenceNum = 0
  next : ∀ k, (us (k + 1)).sequenceNum = (updateLS (envs k) (us k)).1.sequenceNum

/-- The states `rs k` of a receiver before the advertisement number `k` of `u`, up to number `n`.
Packets of other routers do not touch what it has recorded for `u`. -/
structure Processed (u : UInt16) (packets : Nat → Packet) (envs : Nat → Env) (ports : Nat → UInt16)
    (rs : Nat → Router) (n : Nat) : Prop where
  unseen : (rs 0).maxSequenceNum.get? u = none
  next : ∀ k, k < n → (rs (k + 1)).maxSequenceNum.get? u =
    (recvLS (envs k) (ports k) (packets k) (rs k)).1.maxSequenceNum.get? u

section Sequence

variable {u : UInt16} {envs : Nat → Env} {us : Nat → Router}

theorem Issued.sequenceNum (h : Issued u envs us) (k : Nat) : (us k).sequenceNum = UInt64.ofNat k := by
  induction k with
  | zero => exact h.first
  | succ k ih =>
    rw [h.next, updateLS]
    simp [ih, UInt64.ofNat_add]

theorem Issued.sequenceOf (h : Issued u envs us) (k : Nat) :
    (sequenceOf (lsPacket (envs k) (us k)).block.memory).toNat = k % 65536 := by
  rw [sequenceOf_lsPacket, h.sequenceNum]
  simp only [UInt16.toNat_toUInt64, UInt64.toNat_toUInt16, UInt64.toNat_ofNat']
  omega

theorem Issued.sourceOf (h : Issued u envs us) (k : Nat) :
    sourceOf (lsPacket (envs k) (us k)).block.memory = u := by
  rw [sourceOf_lsPacket, h.routerId]

theorem Issued.isOld (h : Issued u envs us) (k : Nat) (r : Router) :
    isOld r (lsPacket (envs k) (us k)).block.memory = true ↔
      ∃ newest, r.maxSequenceNum.get? u = some newest ∧ k % 65536 ≤ newest.toNat := by
  rw [Ls.isOld, h.sourceOf k]
  cases r.maxSequenceNum.get? u with
  | none => simp
  | some newest => simp [UInt64.le_iff_toNat_le, h.sequenceOf k]

variable {envs' : Nat → Env} {ports : Nat → UInt16} {rs : Nat → Router} {n : Nat}

/-- What the receiver has recorded after `k` packets: the last number, until it stays at the largest
number that 16 bits hold. -/
theorem Processed.newest (hissued : Issued u envs us)
    (h : Processed u (fun k => lsPacket (envs k) (us k)) envs' ports rs n) {k : Nat} (hk : k < n) :
    ∃ newest, (rs (k + 1)).maxSequenceNum.get? u = some newest ∧ newest.toNat = min k 65535 := by
  have hnew {k : Nat} (hk : k < n)
      (hold : Ls.isOld (rs k) (lsPacket (envs k) (us k)).block.memory = false) :
      ∃ newest, (rs (k + 1)).maxSequenceNum.get? u = some newest ∧ newest.toNat = k % 65536 := by
    refine ⟨_, ?_, hissued.sequenceOf k⟩
    rw [h.next k hk, maxSequenceNum_of_new _ _ hold, hissued.sourceOf, Table.get?_insert_self]
  induction k with
  | zero =>
    apply hnew hk
    rw [← Bool.not_eq_true, hissued.isOld]
    simp [h.unseen]
  | succ k ih =>
    obtain ⟨newest, hget, hvalue⟩ := ih (by omega)
    cases hold : Ls.isOld (rs (k + 1)) (lsPacket (envs (k + 1)) (us (k + 1))).block.memory with
    | false =>
      have hlate := (Bool.eq_false_iff.mp hold) ∘ (hissued.isOld (k + 1) (rs (k + 1))).mpr
      have hgt : ¬ (k + 1) % 65536 ≤ newest.toNat := fun hle => hlate ⟨newest, hget, hle⟩
      obtain ⟨newest', hget', hvalue'⟩ := hnew hk hold
      exact ⟨newest', hget', by omega⟩
    | true =>
      refine ⟨newest, by rw [h.next _ hk, recvLS_of_old _ _ hold]; exact hget, ?_⟩
      obtain ⟨newest', hget', hle⟩ := (hissued.isOld _ _).mp hold
      obtain rfl := Option.some.inj (hget.symm.trans hget')
      omega

/-- New packets are recognised as long as 16 bits hold their numbers: after the first `n` advertisements the
next one is accepted and no replay after it, exactly if `n < 65536`. -/
theorem next_packet_accepted_iff (hissued : Issued u envs us)
    (hprocessed : Processed u (fun k => lsPacket (envs k) (us k)) envs' ports rs n) :
    (Ls.isOld (rs n) (lsPacket (envs n) (us n)).block.memory = false ∧
      ∀ k, k ≤ n → ∀ env port,
        let r := (recvLS (envs' n) (ports n) (lsPacket (envs n) (us n)) (rs n)).1
        recvLS env port (lsPacket (envs k) (us k)) r = (r, [])) ↔ n < 65536 := by
  have hbefore : ∀ newest, (rs n).maxSequenceNum.get? u = some newest →
      0 < n ∧ newest.toNat = min (n - 1) 65535 := by
    intro newest hget
    cases n with
    | zero => simp [hprocessed.unseen] at hget
    | succ n =>
      obtain ⟨newest', hget', hvalue⟩ := hprocessed.newest hissued (Nat.lt_succ_self n)
      obtain rfl := Option.some.inj (hget.symm.trans hget')
      exact ⟨Nat.succ_pos n, hvalue⟩
  constructor
  · rintro ⟨hnew, -⟩
    by_contra hbig
    obtain ⟨m, rfl⟩ : ∃ m, n = m + 1 := ⟨n - 1, by omega⟩
    obtain ⟨newest, hget, hvalue⟩ := hprocessed.newest hissued (Nat.lt_succ_self m)
    have hold := (hissued.isOld (m + 1) (rs (m + 1))).mpr ⟨newest, hget, by omega⟩
    rw [hnew] at hold
    cases hold
  · intro hn
    have hnew : Ls.isOld (rs n) (lsPacket (envs n) (us n)).block.memory = false := by
      rw [← Bool.not_eq_true, hissued.isOld]
      rintro ⟨newest, hget, hle⟩
      have := hbefore newest hget
      omega
    refine ⟨hnew, fun k hk env port => recvLS_of_old env port ?_⟩
    rw [hissued.isOld, maxSequenceNum_of_new _ _ hnew, hissued.sourceOf]
    refine ⟨_, Table.get?_insert_self .., ?_⟩
    rw [hissued.sequenceOf]
    omega

end Sequence

/-- Router 1 with neighbour 2 after `k` advertisements. -/
def issuer (k : Nat) : Router :=
  Nat.rec (neighborsRouter [(2, 5)]) (fun _ r => (updateLS (sampleEnv 1) r).1) k

/-- Router 2 after the first `k` advertisements of router 1. -/
def reader (k : Nat) : Router :=
  Nat.rec (Router.init 1 2 .ls)
    (fun k r => (recvLS (sampleEnv 2) 0 (lsPacket (sampleEnv 1) (issuer k)) r).1) k

private theorem issuer_issued : Issued 1 (fun _ => sampleEnv 1) issuer where
  routerId k := by
    induction k with
    | zero => rfl
    | succ k ih => exact ih
  first := rfl
  next _ := rfl

private theorem reader_processed (n : Nat) :
    Processed 1 (fun k => lsPacket (sampleEnv 1) (issuer k)) (fun _ => sampleEnv 2) (fun _ => 0) reader n where
  unseen := rfl
  next _ _ := rfl

theorem third_packet_accepted :
    Ls.isOld (reader 2) (lsPacket (sampleEnv 1) (issuer 2)).block.memory = false :=
  ((next_packet_accepted_iff issuer_issued (reader_processed 2)).mpr (by decide)).1

theorem packet_65537_rejected :
    recvLS (sampleEnv 2) 0 (lsPacket (sampleEnv 1) (issuer 65536)) (reader 65536) = (reader 65536, []) := by
  apply recvLS_of_old
  rw [issuer_issued.isOld]
  obtain ⟨newest, hget, hvalue⟩ := (reader_processed 65536).newest issuer_issued (Nat.lt_succ_self 65535)
  exact ⟨newest, hget, by omega⟩

end Comp556.Ls
