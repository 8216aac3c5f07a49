import Comp556.Routing.Protocol

/-!
# Ports and neighbours

`port_table` and `neighbor_table` describe the same links from both ends. Pongs and the timeout
sweep are the only handlers that change them.
-/

namespace Comp556.Router

/-- Every port is attached to one router, a different one for each port and never this one. -/
structure Attached (attached : UInt16 → UInt16) (numPorts routerId : UInt16) : Prop where
  ne_self : ∀ p, p < numPorts → attached p ≠ routerId
  injective : ∀ p q, p < numPorts → q < numPorts → attached p = attached q → p = q

/-- The two tables are inverse to each other and agree with the wiring. -/
structure PortsMatch (attached : UInt16 → UInt16) (r : Router) : Prop where
  known : ∀ p n, r.portTable.get? p = some n → p < r.numPorts ∧ attached p = n ∧
    ∃ link, r.neighborTable.get? n = some link ∧ link.port = p
  linked : ∀ n link, r.neighborTable.get? n = some link → r.portTable.get? link.port = some n

variable {attached : UInt16 → UInt16} {r : Router}

theorem PortsMatch.init (attached : UInt16 → UInt16) (numPorts routerId : UInt16)
    (protocolType : ProtocolType) : PortsMatch attached (Router.init numPorts routerId protocolType) :=
  ⟨by simp [Router.init], by simp [Router.init]⟩

/-- Each of the two tables is the other one read backwards. -/
def Inverse (r : Router) : Prop :=
  ∀ p n, r.portTable.get? p = some n ↔ ∃ link, r.neighborTable.get? n = some link ∧ link.port = p

theorem PortsMatch.inverse (h : PortsMatch attached r) : Inverse r := by
  intro p n
  constructor
  · exact fun hp => (h.known p n hp).2.2
  · rintro ⟨link, hlink, rfl⟩
    exact h.linked n link hlink

theorem PortsMatch.congr {r' : Router} (h : PortsMatch attached r) (hports : r'.portTable = r.portTable)
    (hlinks : r'.neighborTable = r.neighborTable) (hnum : r'.numPorts = r.numPorts) :
    PortsMatch attached r' := by
  constructor
  · rw [hports, hlinks, hnum]
    exact h.known
  · rw [hports, hlinks]
    exact h.linked

theorem PortsMatch.attached_of_link (h : PortsMatch attached r) {n : UInt16} {link : Link}
    (hlink : r.neighborTable.get? n = some link) : link.port < r.numPorts ∧ attached link.port = n :=
  ⟨(h.known _ _ (h.linked n link hlink)).1, (h.known _ _ (h.linked n link hlink)).2.1⟩

theorem PortsMatch.port_of_neighbor (h : PortsMatch attached r)
    (ha : Attached attached r.numPorts r.routerId) {port : UInt16} {link : Link}
    (hport : port < r.numPorts) (hlink : r.neighborTable.get? (attached port) = some link) :
    link.port = port ∧ r.portTable.get? port = some (attached port) := by
  have heq := ha.injective _ _ (h.attached_of_link hlink).1 hport (h.attached_of_link hlink).2
  refine ⟨heq, ?_⟩
  have hlinked := h.linked _ _ hlink
  rwa [heq] at hlinked

theorem PortsMatch.size_le (h : PortsMatch attached r) : r.neighborTable.size ≤ r.numPorts.toNat := by
  have hnodup : (r.neighborTable.entries.map fun neighbor => neighbor.2.port.toNat).Nodup := by
    refine List.pairwise_map.mpr ((List.pairwise_map.mp r.neighborTable.nodup).imp_of_mem ?_)
    rintro ⟨n, link⟩ ⟨n', link'⟩ hn hn' hne hport
    have hlinked := h.linked n link ((Table.mem_entries_iff ..).mp hn)
    have hlinked' := h.linked n' link' ((Table.mem_entries_iff ..).mp hn')
    rw [UInt16.toNat_inj.mp hport, hlinked'] at hlinked
    exact hne (Option.some.inj hlinked).symm
  have hsub :
      (r.neighborTable.entries.map fun neighbor => neighbor.2.port.toNat) ⊆ List.range r.numPorts.toNat := by
    intro i hi
    obtain ⟨⟨n, link⟩, hn, rfl⟩ := List.mem_map.mp hi
    have hport := (h.attached_of_link ((Table.mem_entries_iff ..).mp hn)).1
    exact List.mem_range.mpr (UInt16.lt_iff_toNat_lt.mp hport)
  have hle := (List.subperm_of_subset hnodup hsub).length_le
  rwa [List.length_map, List.length_range] at hle

section Pong

variable (env : Env) (port rtt : UInt16)

theorem notePong_of_known (h : PortsMatch attached r) (hknown : r.portTable.contains port) :
    ∃ link, r.neighborTable.get? (attached port) = some link ∧ link.port = port ∧
      notePong env port (attached port) rtt r =
        ({ r with
            neighborTable := r.neighborTable.insert env.layout (attached port) (freshLink env port rtt)
            routingTable := (r.routingTable.index env.layout (attached port) ⟨0, 0⟩).2 },
          (r.routingTable.getD (attached port) ⟨0, 0⟩).cost, decide (link.cost ≠ rtt)) := by
  obtain ⟨n, hn⟩ := Option.isSome_iff_exists.mp hknown
  obtain ⟨_, rfl, link, hlink, hlp⟩ := h.known port n hn
  refine ⟨link, hlink, hlp, ?_⟩
  simp only [notePong, hn, Table.index_of_get? _ hlink, Table.index_fst]

theorem notePong_of_new (hnew : ¬ r.portTable.contains port) :
    notePong env port (attached port) rtt r =
      ({ r with
          neighborTable := r.neighborTable.insert env.layout (attached port) (freshLink env port rtt)
          portTable := r.portTable.insert env.layout port (attached port) }, 0, true) := by
  have hnone : r.portTable.get? port = none := by simpa [Table.contains_eq] using hnew
  simp only [notePong, hnone]

theorem notePong_tables (h : PortsMatch attached r) :
    let r' := (notePong env port (attached port) rtt r).1
    (∀ n, r'.neighborTable.get? n =
      if n = attached port then some (freshLink env port rtt) else r.neighborTable.get? n) ∧
    (∀ p, r'.portTable.get? p = if p = port then some (attached port) else r.portTable.get? p) ∧
    r'.numPorts = r.numPorts ∧ r'.routerId = r.routerId ∧ r'.protocolType = r.protocolType ∧
      r'.dvTime = r.dvTime := by
  by_cases hknown : r.portTable.contains port
  · obtain ⟨link, hlink, hlp, heq⟩ := notePong_of_known env port rtt h hknown
    obtain ⟨n, hn⟩ := Option.isSome_iff_exists.mp hknown
    rw [heq]
    refine ⟨fun n => Table.get?_insert .., fun p => ?_, rfl, rfl, rfl, rfl⟩
    by_cases hp : p = port
    · subst hp
      rw [if_pos rfl, (h.known p n hn).2.1]
      exact hn
    · rw [if_neg hp]
  · rw [notePong_of_new env port rtt hknown]
    exact ⟨fun n => Table.get?_insert .., fun p => Table.get?_insert .., rfl, rfl, rfl, rfl⟩

theorem PortsMatch.notePong (h : PortsMatch attached r)
    (ha : Attached attached r.numPorts r.routerId) (hport : port < r.numPorts) :
    PortsMatch attached (notePong env port (attached port) rtt r).1 := by
  obtain ⟨hlinks, hports, hnum, _⟩ := notePong_tables env port rtt h
  constructor
  · intro p n hp
    rw [hports] at hp
    rw [hnum]
    simp only [hlinks]
    by_cases heq : p = port
    · subst heq
      rw [if_pos rfl, Option.some.injEq] at hp
      subst hp
      exact ⟨hport, rfl, freshLink env p rtt, if_pos rfl, rfl⟩
    · rw [if_neg heq] at hp
      obtain ⟨hlt, hatt, link, hlink, hlp⟩ := h.known p n hp
      have hne : n ≠ attached port := by
        intro heq
        subst heq
        exact heq (ha.injective _ _ hlt hport hatt)
      exact ⟨hlt, hatt, link, by rw [if_neg hne, hlink], hlp⟩
  · intro n link hlink
    rw [hlinks] at hlink
    rw [hports]
    by_cases heq : n = attached port
    · subst heq
      rw [if_pos rfl, Option.some.injEq] at hlink
      subst hlink
      exact if_pos rfl
    · rw [if_neg heq] at hlink
      have hne : link.port ≠ port := by
        intro heq
        subst heq
        exact heq (h.attached_of_link hlink).2.symm
      rw [if_neg hne, h.linked n link hlink]

end Pong

def alive (env : Env) (link : Link) : Bool := ¬ env.time ≥ link.timeout

private theorem dropped_tables (l : List (UInt16 × Link)) (r : Router) :
    let r' := l.foldl dropNeighbor r
    r' = { r with neighborTable := r'.neighborTable, portTable := r'.portTable } ∧
    (∀ n, r'.neighborTable.get? n =
      if n ∈ l.map Prod.fst then none else r.neighborTable.get? n) ∧
    (∀ p, r'.portTable.get? p =
      if p ∈ l.map (fun e => e.2.port) then none else r.portTable.get? p) := by
  induction l generalizing r with
  | nil => exact ⟨rfl, fun _ => rfl, fun _ => rfl⟩
  | cons e l ih =>
    obtain ⟨hkeeps, hlinks, hports⟩ := ih (dropNeighbor r e)
    refine ⟨hkeeps, fun n => ?_, fun p => ?_⟩
    · rw [List.foldl_cons, hlinks, dropNeighbor, Table.get?_erase]
      by_cases hn : n = e.1
      · simp [hn]
      · simp only [List.map_cons, List.mem_cons, hn, if_false, false_or]
    · rw [List.foldl_cons, hports, dropNeighbor, Table.get?_erase]
      by_cases hp : p = e.2.port
      · simp [hp]
      · simp only [List.map_cons, List.mem_cons, hp, if_false, false_or]

theorem mem_expired (env : Env) (links : NeighborTable) (n : UInt16) (link : Link) :
    (n, link) ∈ expired env links ↔ links.get? n = some link ∧ alive env link = false := by
  rw [expired, List.mem_filter, Table.mem_entries_iff]
  simp [alive]

theorem mem_expired_keys (env : Env) (links : NeighborTable) (n : UInt16) :
    n ∈ (expired env links).map Prod.fst ↔ ∃ link, links.get? n = some link ∧ alive env link = false := by
  rw [List.mem_map]
  constructor
  · rintro ⟨⟨n, link⟩, he, rfl⟩
    exact ⟨link, (mem_expired env links n link).mp he⟩
  · rintro ⟨link, h⟩
    exact ⟨(n, link), (mem_expired env links n link).mpr h, rfl⟩

theorem dropExpired_keeps (env : Env) (r : Router) :
    dropExpired env r = { r with
      neighborTable := (dropExpired env r).neighborTable
      portTable := (dropExpired env r).portTable } :=
  (dropped_tables (expired env r.neighborTable) r).1

theorem dropExpired_neighborTable (env : Env) (r : Router) (n : UInt16) :
    (dropExpired env r).neighborTable.get? n = (r.neighborTable.get? n).filter (alive env) := by
  have h := (dropped_tables (expired env r.neighborTable) r).2.1 n
  simp only [mem_expired_keys] at h
  apply h.trans
  cases r.neighborTable.get? n with
  | none => simp
  | some link => cases halive : alive env link <;> simp [halive, Option.filter]

theorem Inverse.dropExpired (h : Inverse r) (env : Env) : Inverse (dropExpired env r) := by
  have hports (p : UInt16) := (dropped_tables (expired env r.neighborTable) r).2.2 p
  have hdead (p : UInt16) : p ∈ (expired env r.neighborTable).map (fun e => e.2.port) ↔
      ∃ n link, r.neighborTable.get? n = some link ∧ alive env link = false ∧ link.port = p := by
    rw [List.mem_map]
    constructor
    · rintro ⟨⟨n, link⟩, he, rfl⟩
      exact ⟨n, link, ((mem_expired ..).mp he).1, ((mem_expired ..).mp he).2, rfl⟩
    · rintro ⟨n, link, hl, ha, rfl⟩
      exact ⟨(n, link), (mem_expired ..).mpr ⟨hl, ha⟩, rfl⟩
  intro p n
  simp only [dropExpired_neighborTable, Option.filter_eq_some_iff]
  constructor
  · intro hp
    have hp' := (hports p).symm.trans hp
    split at hp'
    · exact absurd hp' (by simp)
    · rename_i hnot
      obtain ⟨link, hlink, hlp⟩ := (h p n).mp hp'
      refine ⟨link, ⟨hlink, ?_⟩, hlp⟩
      by_contra hexpired
      exact hnot ((hdead p).mpr ⟨n, link, hlink, by simpa using hexpired, hlp⟩)
  · rintro ⟨link, ⟨hlink, halive⟩, hlp⟩
    have hp := (h p n).mpr ⟨link, hlink, hlp⟩
    apply (hports p).trans
    rw [if_neg, hp]
    intro hmem
    obtain ⟨n', link', hlink', hdead', hport'⟩ := (hdead p).mp hmem
    obtain rfl := Option.some.inj (hp.symm.trans ((h p n').mpr ⟨link', hlink', hport'⟩))
    obtain rfl := Option.some.inj (hlink.symm.trans hlink')
    simp [hdead'] at halive

theorem PortsMatch.dropExpired (h : PortsMatch attached r) (env : Env) :
    PortsMatch attached (dropExpired env r) := by
  have hinverse := h.inverse.dropExpired env
  have hnum : (Router.dropExpired env r).numPorts = r.numPorts := by rw [dropExpired_keeps]
  constructor
  · intro p n hp
    obtain ⟨link, hlink, hlp⟩ := (hinverse p n).mp hp
    have hbefore := hlink
    rw [dropExpired_neighborTable, Option.filter_eq_some_iff] at hbefore
    obtain ⟨hlt, hatt⟩ := h.attached_of_link hbefore.1
    exact ⟨by rwa [hnum, ← hlp], hlp ▸ hatt, link, hlink, hlp⟩
  · exact fun n link hlink => (hinverse link.port n).mpr ⟨link, hlink, rfl⟩

end Comp556.Router
