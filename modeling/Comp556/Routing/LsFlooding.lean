import Comp556.Foundation.Flood
import Comp556.Routing.LsPacket
import Mathlib.Logic.Function.Basic

/-!
# Flooding of link-state packets

A network of link-state routers with fixed neighbours, and every copy of an advertisement under way.
For one router the network floods numbered messages.
-/

namespace Comp556.Ls

/-- Fixed links: the port each router has for each neighbour, and what is behind a port. -/
structure Topology where
  numPorts : UInt16 → UInt16
  portTo : UInt16 → UInt16 → Option UInt16
  farEnd : UInt16 → UInt16 → UInt16 × UInt16
  links : ∀ a b p, portTo a b = some p →
    p < numPorts a ∧ ∃ q, portTo b a = some q ∧ farEnd a p = (b, q)

def Topology.Adjacent (topo : Topology) (a b : UInt16) : Prop := (topo.portTo a b).isSome

/-- The neighbour table of router `a` matches its links. -/
structure Matches (topo : Topology) (a : UInt16) (r : Router) : Prop where
  routerId : r.routerId = a
  links : ∀ b, (r.neighborTable.get? b).map Link.port = topo.portTo a b

/-- A copy of a packet on its way to a port of a router. -/
structure Carried where
  dest : UInt16
  port : UInt16
  packet : Packet

/-- The routers, the copies under way, and as history the packets that router `s` has issued and the
last of them that each router has accepted. -/
structure FloodNet where
  router : UInt16 → Router
  flight : List Carried
  issued : List Packet
  accepted : UInt16 → Option Packet

def transmit (topo : Topology) (a : UInt16) (calls : List SysCall) : List Carried :=
  calls.filterMap fun call =>
    match call with
    | .send port packet => some ⟨(topo.farEnd a port).1, (topo.farEnd a port).2, packet⟩
    | .setAlarm _ _ => none

/-- A router does something that neither issues nor receives an advertisement and keeps its
neighbours. -/
structure KeepsFlooding (r r' : Router) : Prop where
  routerId : r'.routerId = r.routerId
  ports : ∀ n, (r'.neighborTable.get? n).map Link.port = (r.neighborTable.get? n).map Link.port
  sequenceNum : r'.sequenceNum = r.sequenceNum
  maxSequenceNum : ∀ u, r'.maxSequenceNum.get? u = r.maxSequenceNum.get? u

/-- What `issue` leaves: router `a` has run `update_LS`. -/
def FloodNet.issue (topo : Topology) (s : UInt16) (net : FloodNet) (env : Env) (a : UInt16) : FloodNet where
  router := Function.update net.router a (updateLS env (net.router a)).1
  flight := net.flight ++ transmit topo a (updateLS env (net.router a)).2
  issued := if a = s then net.issued ++ [lsPacket env (net.router a)] else net.issued
  accepted := net.accepted

/-- What `deliver` leaves: the destination has run `recv_LS`, and `rest` is still under way. -/
def FloodNet.deliver (topo : Topology) (s : UInt16) (net : FloodNet) (env : Env) (c : Carried)
    (rest : List Carried) : FloodNet where
  router := Function.update net.router c.dest (recvLS env c.port c.packet (net.router c.dest)).1
  flight := rest ++ transmit topo c.dest (recvLS env c.port c.packet (net.router c.dest)).2
  issued := net.issued
  accepted :=
    if sourceOf c.packet.block.memory = s ∧ isOld (net.router c.dest) c.packet.block.memory = false then
      Function.update net.accepted c.dest (some c.packet)
    else net.accepted

/-- Any router may issue an advertisement, any copy may arrive next, and copies may be duplicated. -/
inductive FloodStep (topo : Topology) (s : UInt16) (net : FloodNet) : FloodNet → Prop
  | issue (env : Env) (a : UInt16) : FloodStep topo s net (net.issue topo s env a)
  | deliver (env : Env) (before after : List Carried) (c : Carried)
      (hflight : net.flight = before ++ c :: after) :
      FloodStep topo s net (net.deliver topo s env c (before ++ after))
  | duplicate (c : Carried) (hc : c ∈ net.flight) :
      FloodStep topo s net { net with flight := c :: net.flight }
  | other (a : UInt16) (r' : Router) (hkeeps : KeepsFlooding (net.router a) r') :
      FloodStep topo s net { net with router := Function.update net.router a r' }

/-- Nothing has been issued by `s` yet. -/
structure FloodStart (topo : Topology) (s : UInt16) (net : FloodNet) : Prop where
  wired : ∀ a, Matches topo a (net.router a)
  sequenceNum : (net.router s).sequenceNum = 0
  maxSequenceNum : ∀ v, (net.router v).maxSequenceNum.get? s = none
  flight : ∀ c ∈ net.flight, sourceOf c.packet.block.memory ≠ s
  issued : net.issued = []
  accepted : ∀ v, net.accepted v = none

def numberOf (msg : Packet) : Nat := (sequenceOf msg.block.memory).toNat + 1

/-- What router `v` holds of the packets of `s`. -/
def heldBy (s : UInt16) (net : FloodNet) (v : UInt16) : Nat :=
  if v = s then net.issued.length
  else (((net.router v).maxSequenceNum.get? s).map fun newest => newest.toNat + 1).getD 0

def Carried.copy (topo : Topology) (c : Carried) : Copy UInt16 :=
  ⟨(topo.farEnd c.dest c.port).1, c.dest, numberOf c.packet⟩

/-- The network as a flood of the packets of `s`. -/
def FloodNet.view (topo : Topology) (s : UInt16) (net : FloodNet) : Flood UInt16 where
  held := heldBy s net
  flight := {copy | ∃ c ∈ net.flight, sourceOf c.packet.block.memory = s ∧ c.copy topo = copy}

theorem Matches.keeps {topo : Topology} {a : UInt16} {r r' : Router} (h : Matches topo a r)
    (hkeeps : KeepsFlooding r r') : Matches topo a r' :=
  ⟨hkeeps.routerId.trans h.routerId, fun b => (hkeeps.ports b).trans (h.links b)⟩

theorem Matches.updateLS {topo : Topology} {a : UInt16} {r : Router} (h : Matches topo a r) (env : Env) :
    Matches topo a (updateLS env r).1 :=
  ⟨h.routerId, h.links⟩

theorem Matches.recvLS {topo : Topology} {a : UInt16} {r : Router} (h : Matches topo a r) (env : Env)
    (port : UInt16) (msg : Packet) : Matches topo a (recvLS env port msg r).1 := by
  unfold Ls.recvLS
  split
  · exact h
  · exact ⟨h.routerId, h.links⟩

/-- What `send_LS` puts on the links: a copy for every neighbour but the one behind `port`. -/
private theorem mem_transmit_sendLS {topo : Topology} {a : UInt16} {r : Router} (h : Matches topo a r)
    (msg : Packet) (port : UInt16) (c : Carried) :
    c ∈ transmit topo a (sendLS r msg port) ↔
      ∃ b p q, topo.portTo a b = some p ∧ p ≠ port ∧ topo.portTo b a = some q ∧ c = ⟨b, q, msg⟩ := by
  have hport (b p : UInt16) : topo.portTo a b = some p ↔
      ∃ link, r.neighborTable.get? b = some link ∧ link.port = p := by
    rw [← h.links b, Option.map_eq_some_iff]
  simp only [transmit, sendLS, List.mem_filterMap, List.mem_map, List.mem_filter]
  constructor
  · rintro ⟨call, ⟨⟨b, link⟩, ⟨hmem, hne⟩, rfl⟩, hc⟩
    have hlink := (Table.mem_entries_iff ..).mp hmem
    obtain ⟨-, q, hback, hfar⟩ := topo.links a b link.port ((hport b link.port).mpr ⟨link, hlink, rfl⟩)
    refine ⟨b, link.port, q, (hport b link.port).mpr ⟨link, hlink, rfl⟩, by simpa using hne, hback, ?_⟩
    simp only [hfar] at hc
    exact (Option.some.inj hc).symm
  · rintro ⟨b, p, q, hp, hne, hback, rfl⟩
    obtain ⟨link, hlink, rfl⟩ := (hport b p).mp hp
    obtain ⟨-, q', hback', hfar⟩ := topo.links a b link.port hp
    obtain rfl := Option.some.inj (hback.symm.trans hback')
    refine ⟨.send link.port msg, ⟨(b, link), ⟨(Table.mem_entries_iff ..).mpr hlink, by simpa using hne⟩, rfl⟩,
      ?_⟩
    simp only [hfar]

private theorem copy_sent {topo : Topology} {a b q : UInt16} (hback : topo.portTo b a = some q) (msg : Packet) :
    (⟨b, q, msg⟩ : Carried).copy topo = ⟨a, b, numberOf msg⟩ := by
  obtain ⟨-, p, -, hfar⟩ := topo.links b a q hback
  simp [Carried.copy, hfar]

variable {topo : Topology} {s : UInt16} {net net' : FloodNet}

/-- The invariant of a network in which `s` has issued fewer than 65536 packets. -/
structure FloodInv (topo : Topology) (s : UInt16) (net : FloodNet) : Prop where
  wired : ∀ a, Matches topo a (net.router a)
  sequenceNum : (net.router s).sequenceNum = UInt64.ofNat net.issued.length
  numbered : ∀ k p, net.issued[k]? = some p → (sequenceOf p.block.memory).toNat = k
  flight : ∀ c ∈ net.flight, sourceOf c.packet.block.memory = s → c.packet ∈ net.issued
  accepted : ∀ v p, net.accepted v = some p → p ∈ net.issued
  newest : ∀ v, (net.router v).maxSequenceNum.get? s =
    (net.accepted v).map fun p => sequenceOf p.block.memory
  flood : Flood.Inv topo.Adjacent s (net.view topo s)

theorem FloodInv.start (h : FloodStart topo s net) : FloodInv topo s net where
  wired := h.wired
  sequenceNum := by rw [h.sequenceNum, h.issued]; rfl
  numbered k p hp := by simp [h.issued] at hp
  flight c hc hs := absurd hs (h.flight c hc)
  accepted v p hp := by simp [h.accepted] at hp
  newest v := by rw [h.maxSequenceNum, h.accepted]; rfl
  flood := by
    refine .start _ _ (fun v => ?_) ?_
    · simp [FloodNet.view, heldBy, h.issued, h.maxSequenceNum]
    · rintro copy ⟨c, hc, hs, -⟩
      exact h.flight c hc hs

private theorem lsPacket_number (h : FloodInv topo s net) (hfew : net.issued.length < 65536) (env : Env) :
    (sequenceOf (lsPacket env (net.router s)).block.memory).toNat = net.issued.length := by
  rw [sequenceOf_lsPacket, h.sequenceNum]
  simp only [UInt16.toNat_toUInt64, UInt64.toNat_toUInt16, UInt64.toNat_ofNat']
  omega

private theorem Topology.ne_specialPort (topo : Topology) {a b p : UInt16} (hp : topo.portTo a b = some p) :
    p ≠ specialPort := by
  intro heq
  subst heq
  have hlt := UInt16.lt_iff_toNat_lt.mp (topo.links a b specialPort hp).1
  have hmax := (topo.numPorts a).toNat_lt
  have hport : specialPort.toNat = 65535 := rfl
  omega

private theorem heldBy_issue (env : Env) (a : UInt16) {v : UInt16} (hv : v = s → a ≠ s) :
    heldBy s (net.issue topo s env a) v = heldBy s net v := by
  have hmax : ((net.issue topo s env a).router v).maxSequenceNum = (net.router v).maxSequenceNum := by
    simp only [FloodNet.issue, Function.update_apply]
    split
    · rename_i hva
      rw [hva]
      rfl
    · rfl
  rw [heldBy, heldBy, hmax]
  split
  · rename_i hvs
    exact congrArg List.length (if_neg (hv hvs))
  · rfl

section Issue

variable (h : FloodInv topo s net) (env : Env) (a : UInt16)
include h

theorem sourceOf_issued : sourceOf (lsPacket env (net.router a)).block.memory = a := by
  rw [sourceOf_lsPacket, (h.wired a).routerId]

private theorem mem_issue (c : Carried) :
    c ∈ (net.issue topo s env a).flight ↔ c ∈ net.flight ∨
      ∃ b p q, topo.portTo a b = some p ∧ p ≠ specialPort ∧ topo.portTo b a = some q ∧
        c = ⟨b, q, lsPacket env (net.router a)⟩ := by
  rw [← mem_transmit_sendLS (h.wired a) (lsPacket env (net.router a)) specialPort]
  exact List.mem_append

private theorem view_issue_source (hfew : net.issued.length < 65536) :
    Flood.Step topo.Adjacent s (net.view topo s) ((net.issue topo s env s).view topo s) := by
  have hheld : heldBy s net s = net.issued.length := if_pos rfl
  have hnumber : numberOf (lsPacket env (net.router s)) = heldBy s net s + 1 := by
    rw [numberOf, lsPacket_number h hfew, hheld]
  refine .issue ?_ (fun v hv => ?_) ?_ (fun x hx => ?_) ?_
  · simp [FloodNet.view, heldBy, FloodNet.issue]
  · exact heldBy_issue env s fun hvs => absurd hvs hv
  · rintro copy ⟨c, hc, hrest⟩
    exact ⟨c, (mem_issue h env s c).mpr (.inl hc), hrest⟩
  · obtain ⟨p, hp⟩ := Option.isSome_iff_exists.mp hx
    obtain ⟨-, q, hback, -⟩ := topo.links s x p hp
    refine ⟨⟨x, q, lsPacket env (net.router s)⟩,
      (mem_issue h env s _).mpr (.inr ⟨x, p, q, hp, topo.ne_specialPort hp, hback, rfl⟩),
      sourceOf_issued h env s, ?_⟩
    rw [copy_sent hback, hnumber]
    rfl
  · rintro copy ⟨c, hc, hs, rfl⟩
    rcases (mem_issue h env s c).mp hc with hc | ⟨b, p, q, _, _, hback, rfl⟩
    · exact .inl ⟨c, hc, hs, rfl⟩
    · rw [copy_sent hback]
      exact .inr ⟨rfl, hnumber⟩

private theorem view_issue_other (ha : a ≠ s) :
    Flood.Step topo.Adjacent s (net.view topo s) ((net.issue topo s env a).view topo s) := by
  refine .other (fun v => heldBy_issue env a fun _ => ha) fun copy => ?_
  constructor
  · rintro ⟨c, hc, hs, rfl⟩
    rcases (mem_issue h env a c).mp hc with hc | ⟨b, p, q, _, _, _, rfl⟩
    · exact ⟨c, hc, hs, rfl⟩
    · exact absurd ((sourceOf_issued h env a).symm.trans hs) ha
  · rintro ⟨c, hc, hrest⟩
    exact ⟨c, (mem_issue h env a c).mpr (.inl hc), hrest⟩

private theorem view_issue (hfew : net.issued.length < 65536) :
    Flood.Step topo.Adjacent s (net.view topo s) ((net.issue topo s env a).view topo s) := by
  by_cases ha : a = s
  · subst ha
    exact view_issue_source h env hfew
  · exact view_issue_other h env a ha

end Issue

theorem isOld_iff {r : Router} {msg : Memory} :
    isOld r msg = true ↔
      ∃ newest, r.maxSequenceNum.get? (sourceOf msg) = some newest ∧ sequenceOf msg ≤ newest := by
  rw [isOld]
  cases r.maxSequenceNum.get? (sourceOf msg) <;> simp

theorem newer_of_not_old {r : Router} {msg : Memory} (hnew : isOld r msg = false) {newest : UInt64}
    (hget : r.maxSequenceNum.get? (sourceOf msg) = some newest) : newest < sequenceOf msg := by
  apply UInt64.not_le.mp
  intro hle
  rw [isOld_iff.mpr ⟨newest, hget, hle⟩] at hnew
  cases hnew

/-- What a router has recorded for `s` changes only when it accepts a packet of `s`. -/
theorem recvLS_newest (env : Env) (port : UInt16) (msg : Packet) (r : Router) (s : UInt16) :
    (recvLS env port msg r).1.maxSequenceNum.get? s =
      if sourceOf msg.block.memory = s ∧ isOld r msg.block.memory = false then
        some (sequenceOf msg.block.memory)
      else r.maxSequenceNum.get? s := by
  cases hold : isOld r msg.block.memory with
  | true => rw [recvLS_of_old env port hold, if_neg (by simp)]
  | false =>
    rw [maxSequenceNum_of_new env port hold, Table.get?_insert]
    by_cases hs : s = sourceOf msg.block.memory
    · simp [hs]
    · simp [hs, Ne.symm hs]

theorem recvLS_calls (env : Env) (port : UInt16) (msg : Packet) (r : Router)
    (hnew : isOld r msg.block.memory = false) :
    ∃ r', r'.neighborTable = r.neighborTable ∧ (recvLS env port msg r).2 = sendLS r' msg port := by
  exact ⟨updateForwardingTable env { r with
    maxSequenceNum := r.maxSequenceNum.insert env.layout (sourceOf msg.block.memory)
      (sequenceOf msg.block.memory)
    graph := recvGraph env msg r.graph }, rfl, by simp [recvLS, hnew]⟩

private theorem mem_deliver (h : FloodInv topo s net) (env : Env) (c : Carried) (rest : List Carried)
    (hnew : isOld (net.router c.dest) c.packet.block.memory = false) (c' : Carried) :
    c' ∈ (net.deliver topo s env c rest).flight ↔ c' ∈ rest ∨
      ∃ b p q, topo.portTo c.dest b = some p ∧ p ≠ c.port ∧ topo.portTo b c.dest = some q ∧
        c' = ⟨b, q, c.packet⟩ := by
  obtain ⟨r', htable, hcalls⟩ := recvLS_calls env c.port c.packet (net.router c.dest) hnew
  have hsame : sendLS r' c.packet c.port = sendLS (net.router c.dest) c.packet c.port := by
    rw [sendLS, htable, sendLS]
  rw [← mem_transmit_sendLS (h.wired c.dest) c.packet c.port, ← hsame, ← hcalls]
  exact List.mem_append

private theorem deliver_of_old (env : Env) (c : Carried) (rest : List Carried)
    (hold : isOld (net.router c.dest) c.packet.block.memory = true) :
    net.deliver topo s env c rest = { net with flight := rest } := by
  simp [FloodNet.deliver, recvLS_of_old env c.port hold, transmit, hold]

private theorem mem_flight {before after : List Carried} {c : Carried}
    (hflight : net.flight = before ++ c :: after) (c' : Carried) :
    c' ∈ net.flight ↔ c' = c ∨ c' ∈ before ++ after := by
  rw [hflight]
  simp only [List.mem_append, List.mem_cons]
  tauto

private theorem heldBy_deliver (env : Env) (c : Carried) (rest : List Carried) {v : UInt16} (hv : v ≠ s) :
    heldBy s (net.deliver topo s env c rest) v =
      if v = c.dest ∧ sourceOf c.packet.block.memory = s ∧
        isOld (net.router c.dest) c.packet.block.memory = false then numberOf c.packet
      else heldBy s net v := by
  simp only [heldBy, if_neg hv, FloodNet.deliver, Function.update_apply]
  by_cases hdest : v = c.dest
  · rw [if_pos hdest, recvLS_newest]
    by_cases hacc : sourceOf c.packet.block.memory = s ∧
        isOld (net.router c.dest) c.packet.block.memory = false
    · rw [if_pos hacc, if_pos ⟨hdest, hacc⟩]
      rfl
    · rw [if_neg hacc, if_neg (fun h => hacc h.2), hdest]
  · rw [if_neg hdest, if_neg (fun h => hdest h.1)]

private theorem heldBy_deliver_source (env : Env) (c : Carried) (rest : List Carried) {v : UInt16}
    (hv : v = s) : heldBy s (net.deliver topo s env c rest) v = heldBy s net v := by
  simp only [heldBy, if_pos hv, FloodNet.deliver]

/-- Delivering a packet of `s` takes its copy from the flood. -/
private theorem view_taken {before after : List Carried} {c : Carried}
    (hflight : net.flight = before ++ c :: after) (hs : sourceOf c.packet.block.memory = s)
    (st' : Flood UInt16)
    (hrest : ∀ c' ∈ before ++ after, sourceOf c'.packet.block.memory = s → c'.copy topo ∈ st'.flight) :
    Flood.Taken (c.copy topo) (net.view topo s) st' := by
  refine ⟨⟨c, (mem_flight hflight c).mpr (.inl rfl), hs, rfl⟩, ?_⟩
  rintro _ ⟨c', hc', hs', rfl⟩ hne
  rcases (mem_flight hflight c').mp hc' with rfl | hc'
  · exact absurd rfl hne
  · exact hrest c' hc' hs'

private theorem view_deliver_old (env : Env) {before after : List Carried} {c : Carried}
    (hflight : net.flight = before ++ c :: after) (hs : sourceOf c.packet.block.memory = s)
    (hold : isOld (net.router c.dest) c.packet.block.memory = true) :
    Flood.Step topo.Adjacent s (net.view topo s)
      ((net.deliver topo s env c (before ++ after)).view topo s) := by
  rw [deliver_of_old env c (before ++ after) hold]
  refine .ignore (c.copy topo) (view_taken hflight hs _ fun c' hc' hs' => ⟨c', hc', hs', rfl⟩) ?_
    (fun _ => rfl) ?_
  · by_cases hdest : c.dest = s
    · exact .inl hdest
    · obtain ⟨newest, hget, hle⟩ := isOld_iff.mp hold
      rw [hs] at hget
      have hheld : heldBy s net c.dest = newest.toNat + 1 := by
        rw [heldBy, if_neg hdest, hget]
        rfl
      refine .inr ?_
      change numberOf c.packet ≤ heldBy s net c.dest
      rw [hheld, numberOf]
      exact Nat.succ_le_succ (UInt64.le_iff_toNat_le.mp hle)
  · rintro _ ⟨c', hc', hs', rfl⟩
    exact .inl ⟨c', (mem_flight hflight c').mpr (.inr hc'), hs', rfl⟩

private theorem heldBy_lt_of_new {c : Carried} (hdest : c.dest ≠ s)
    (hs : sourceOf c.packet.block.memory = s)
    (hnew : isOld (net.router c.dest) c.packet.block.memory = false) :
    heldBy s net c.dest < numberOf c.packet := by
  rw [heldBy, if_neg hdest, numberOf]
  cases hget : (net.router c.dest).maxSequenceNum.get? s with
  | none => exact Nat.succ_pos _
  | some newest =>
    have hlate := newer_of_not_old hnew (hs ▸ hget)
    rw [UInt64.lt_iff_toNat_lt] at hlate
    simp only [Option.map_some, Option.getD_some]
    omega

/-- A new packet of `s` is kept and sent on, or, at `s` itself, only sent on. -/
private theorem view_deliver_new (h : FloodInv topo s net) (env : Env) {before after : List Carried}
    {c : Carried} (hflight : net.flight = before ++ c :: after)
    (hs : sourceOf c.packet.block.memory = s)
    (hnew : isOld (net.router c.dest) c.packet.block.memory = false) :
    Flood.Step topo.Adjacent s (net.view topo s)
      ((net.deliver topo s env c (before ++ after)).view topo s) := by
  have hmem := mem_deliver h env c (before ++ after) hnew
  have htaken := view_taken hflight hs ((net.deliver topo s env c (before ++ after)).view topo s)
    fun c' hc' hs' => ⟨c', (hmem c').mpr (.inl hc'), hs', rfl⟩
  have honly : ∀ copy' ∈ ((net.deliver topo s env c (before ++ after)).view topo s).flight,
      copy' ∈ (net.view topo s).flight ∨
        copy'.sender = c.dest ∧ copy'.number = numberOf c.packet := by
    rintro _ ⟨c', hc', hs', rfl⟩
    rcases (hmem c').mp hc' with hc' | ⟨b, p, q, _, _, hback, rfl⟩
    · exact .inl ⟨c', (mem_flight hflight c').mpr (.inr hc'), hs', rfl⟩
    · rw [copy_sent hback]
      exact .inr ⟨rfl, rfl⟩
  by_cases hdest : c.dest = s
  · refine .ignore (c.copy topo) htaken (.inl hdest) (fun v => ?_) fun copy' hcopy' =>
      (honly copy' hcopy').imp_right fun hown => ⟨hdest, hown.1.trans hdest, hown.2⟩
    by_cases hv : v = s
    · exact heldBy_deliver_source env c _ hv
    · exact (heldBy_deliver env c _ hv).trans (if_neg fun h => hv (h.1.trans hdest))
  · refine .accept (c.copy topo) htaken hdest ?_
      ((heldBy_deliver env c _ hdest).trans (if_pos ⟨rfl, hs, hnew⟩)) (fun v hv => ?_)
      (fun x hx hne => ?_) honly
    · exact heldBy_lt_of_new hdest hs hnew
    · by_cases hvs : v = s
      · exact heldBy_deliver_source env c _ hvs
      · exact (heldBy_deliver env c _ hvs).trans (if_neg fun h => hv h.1)
    · obtain ⟨p, hp⟩ := Option.isSome_iff_exists.mp hx
      obtain ⟨-, q, hback, hfar⟩ := topo.links c.dest x p hp
      have hport : p ≠ c.port := by
        intro heq
        subst heq
        exact hne (congrArg Prod.fst hfar).symm
      exact ⟨⟨x, q, c.packet⟩, (hmem _).mpr (.inr ⟨x, p, q, hp, hport, hback, rfl⟩), hs,
        copy_sent hback c.packet⟩

private theorem view_deliver_other (h : FloodInv topo s net) (env : Env) {before after : List Carried}
    {c : Carried} (hflight : net.flight = before ++ c :: after)
    (hs : sourceOf c.packet.block.memory ≠ s) :
    Flood.Step topo.Adjacent s (net.view topo s)
      ((net.deliver topo s env c (before ++ after)).view topo s) := by
  refine .other (fun v => ?_) fun copy => ?_
  · by_cases hv : v = s
    · exact heldBy_deliver_source env c _ hv
    · exact (heldBy_deliver env c _ hv).trans (if_neg fun h => hs h.2.1)
  · have hother (c' : Carried) (hs' : sourceOf c'.packet.block.memory = s) :
        c' ∈ (net.deliver topo s env c (before ++ after)).flight ↔ c' ∈ net.flight := by
      have hne : c' ≠ c := fun heq => hs (heq ▸ hs')
      rw [mem_flight hflight, or_iff_right hne]
      cases hold : isOld (net.router c.dest) c.packet.block.memory with
      | true => rw [deliver_of_old env c _ hold]
      | false =>
        rw [mem_deliver h env c _ hold, or_iff_left]
        rintro ⟨b, p, q, _, _, _, rfl⟩
        exact hs hs'
    constructor
    · rintro ⟨c', hc', hs', rfl⟩
      exact ⟨c', (hother c' hs').mp hc', hs', rfl⟩
    · rintro ⟨c', hc', hs', rfl⟩
      exact ⟨c', (hother c' hs').mpr hc', hs', rfl⟩

private theorem view_deliver (h : FloodInv topo s net) (env : Env) {before after : List Carried} {c : Carried}
    (hflight : net.flight = before ++ c :: after) :
    Flood.Step topo.Adjacent s (net.view topo s)
      ((net.deliver topo s env c (before ++ after)).view topo s) := by
  by_cases hs : sourceOf c.packet.block.memory = s
  · cases hold : isOld (net.router c.dest) c.packet.block.memory with
    | true => exact view_deliver_old env hflight hs hold
    | false => exact view_deliver_new h env hflight hs hold
  · exact view_deliver_other h env hflight hs

private theorem mem_issued_of_issue (env : Env) (a : UInt16) {p : Packet} (hp : p ∈ net.issued) :
    p ∈ (net.issue topo s env a).issued := by
  simp only [FloodNet.issue]
  split
  · exact List.mem_append_left _ hp
  · exact hp

private theorem FloodInv.numbered_issue (h : FloodInv topo s net) (env : Env) (a : UInt16)
    (hfew : net.issued.length < 65536) {k : Nat} {p : Packet}
    (hp : (net.issue topo s env a).issued[k]? = some p) : (sequenceOf p.block.memory).toNat = k := by
  simp only [FloodNet.issue] at hp
  split at hp
  case isTrue ha =>
    subst ha
    rcases Nat.lt_trichotomy k net.issued.length with hk | rfl | hk
    · rw [List.getElem?_append_left hk] at hp
      exact h.numbered k p hp
    · obtain rfl : lsPacket env (net.router a) = p := by simpa using hp
      exact lsPacket_number h hfew env
    · rw [List.getElem?_eq_none (by simp; omega)] at hp
      cases hp
  case isFalse => exact h.numbered k p hp

theorem FloodInv.issue (h : FloodInv topo s net) (env : Env) (a : UInt16)
    (hfew : net.issued.length < 65536) : FloodInv topo s (net.issue topo s env a) where
  wired := (Function.forall_update_iff net.router (Matches topo)).mpr
    ⟨(h.wired a).updateLS env, fun v _ => h.wired v⟩
  sequenceNum := by
    simp only [FloodNet.issue, Function.update_apply]
    by_cases ha : s = a
    · subst ha
      simp [updateLS, h.sequenceNum, UInt64.ofNat_add]
    · simp [ha, Ne.symm ha, h.sequenceNum]
  numbered k p hp := h.numbered_issue env a hfew hp
  flight c hc hs := by
    rcases (mem_issue h env a c).mp hc with hc | ⟨b, p, q, -, -, -, rfl⟩
    · exact mem_issued_of_issue env a (h.flight c hc hs)
    · have ha : a = s := (sourceOf_issued h env a).symm.trans hs
      simp [FloodNet.issue, ha]
  accepted v p hp := mem_issued_of_issue env a (h.accepted v p hp)
  newest := (Function.forall_update_iff net.router fun v r => r.maxSequenceNum.get? s =
    (net.accepted v).map fun p => sequenceOf p.block.memory).mpr ⟨h.newest a, fun v _ => h.newest v⟩
  flood := h.flood.step (view_issue h env a hfew)

private theorem recvLS_sequenceNum (env : Env) (port : UInt16) (msg : Packet) (r : Router) :
    (recvLS env port msg r).1.sequenceNum = r.sequenceNum := by
  unfold recvLS
  split <;> rfl

private theorem FloodInv.newest_deliver (h : FloodInv topo s net) (env : Env) (c : Carried)
    (rest : List Carried) (v : UInt16) : ((net.deliver topo s env c rest).router v).maxSequenceNum.get? s =
      ((net.deliver topo s env c rest).accepted v).map fun p => sequenceOf p.block.memory := by
  simp only [FloodNet.deliver, Function.update_apply]
  by_cases hv : v = c.dest
  · rw [if_pos hv, recvLS_newest]
    split
    · simp [hv]
    · rw [hv]
      exact h.newest c.dest
  · rw [if_neg hv]
    split
    · rw [Function.update_apply, if_neg hv]
      exact h.newest v
    · exact h.newest v

theorem FloodInv.deliver (h : FloodInv topo s net) (env : Env) {before after : List Carried} {c : Carried}
    (hflight : net.flight = before ++ c :: after) :
    FloodInv topo s (net.deliver topo s env c (before ++ after)) where
  wired := (Function.forall_update_iff net.router (Matches topo)).mpr
    ⟨(h.wired c.dest).recvLS env c.port c.packet, fun v _ => h.wired v⟩
  sequenceNum := by
    have hkeeps : ∀ v, ((net.deliver topo s env c (before ++ after)).router v).sequenceNum =
        (net.router v).sequenceNum :=
      (Function.forall_update_iff net.router fun v r => r.sequenceNum = (net.router v).sequenceNum).mpr
        ⟨recvLS_sequenceNum env c.port c.packet _, fun _ _ => rfl⟩
    rw [hkeeps]
    exact h.sequenceNum
  numbered := h.numbered
  flight c' hc' hs := by
    have hrest (hin : c' ∈ before ++ after) : c'.packet ∈ net.issued :=
      h.flight c' ((mem_flight hflight c').mpr (.inr hin)) hs
    cases hold : isOld (net.router c.dest) c.packet.block.memory with
    | true =>
      rw [deliver_of_old env c (before ++ after) hold] at hc'
      exact hrest hc'
    | false =>
      rcases (mem_deliver h env c (before ++ after) hold c').mp hc' with hc' | ⟨_, _, _, _, _, _, rfl⟩
      · exact hrest hc'
      · exact h.flight c (by simp [hflight]) hs
  accepted v p hp := by
    simp only [FloodNet.deliver] at hp
    split at hp
    case isTrue hacc =>
      rw [Function.update_apply] at hp
      split at hp
      · obtain rfl := Option.some.inj hp
        exact h.flight c (by simp [hflight]) hacc.1
      · exact h.accepted v p hp
    case isFalse => exact h.accepted v p hp
  newest := h.newest_deliver env c (before ++ after)
  flood := h.flood.step (view_deliver h env hflight)

theorem FloodInv.other (h : FloodInv topo s net) {a : UInt16} {r' : Router}
    (hkeeps : KeepsFlooding (net.router a) r') :
    FloodInv topo s { net with router := Function.update net.router a r' } := by
  have hmax : ∀ v, (Function.update net.router a r' v).maxSequenceNum.get? s =
      (net.router v).maxSequenceNum.get? s :=
    (Function.forall_update_iff net.router fun v r => r.maxSequenceNum.get? s =
      (net.router v).maxSequenceNum.get? s).mpr ⟨hkeeps.maxSequenceNum s, fun _ _ => rfl⟩
  have hnumber : ∀ v, (Function.update net.router a r' v).sequenceNum = (net.router v).sequenceNum :=
    (Function.forall_update_iff net.router fun v r => r.sequenceNum = (net.router v).sequenceNum).mpr
      ⟨hkeeps.sequenceNum, fun _ _ => rfl⟩
  refine ⟨?_, (hnumber s).trans h.sequenceNum, h.numbered, h.flight, h.accepted,
    fun v => (hmax v).trans (h.newest v), h.flood.step (.other (fun v => ?_) fun _ => .rfl)⟩
  · exact (Function.forall_update_iff net.router (Matches topo)).mpr
      ⟨(h.wired a).keeps hkeeps, fun v _ => h.wired v⟩
  · simp only [FloodNet.view, heldBy, hmax]

theorem FloodInv.step (h : FloodInv topo s net) (hstep : FloodStep topo s net net')
    (hfew : net.issued.length < 65536) : FloodInv topo s net' := by
  cases hstep with
  | issue env a => exact h.issue env a hfew
  | deliver env before after c hflight => exact h.deliver env hflight
  | duplicate c hc =>
    have hsame (c' : Carried) : c' ∈ c :: net.flight ↔ c' ∈ net.flight := by
      rw [List.mem_cons]
      exact or_iff_right_of_imp fun heq => heq ▸ hc
    refine ⟨h.wired, h.sequenceNum, h.numbered, fun c' hc' => h.flight c' ((hsame c').mp hc'),
      h.accepted, h.newest, h.flood.step (.other (fun _ => rfl) fun copy => ?_)⟩
    exact ⟨fun ⟨c', hc', hrest⟩ => ⟨c', (hsame c').mp hc', hrest⟩,
      fun ⟨c', hc', hrest⟩ => ⟨c', (hsame c').mpr hc', hrest⟩⟩
  | other a r' hkeeps => exact h.other hkeeps

private theorem FloodStep.issued_le (h : FloodStep topo s net net') :
    net.issued.length ≤ net'.issued.length := by
  cases h with
  | issue env a =>
    simp only [FloodNet.issue]
    split <;> simp
  | _ => exact Nat.le_refl _

theorem FloodInv.run {start : FloodNet} (hstart : FloodStart topo s start)
    (hrun : Relation.ReflTransGen (FloodStep topo s) start net) (hfew : net.issued.length < 65536) :
    FloodInv topo s net :=
  run_invariant (fun net => net.issued.length < 65536 → FloodInv topo s net) hrun
    (fun _ => .start hstart)
    (fun _ _ h hstep hlt =>
      have hlt := Nat.lt_of_le_of_lt hstep.issued_le hlt
      (h hlt).step hstep hlt) hfew

/-- Whenever no copy of an advertisement of `s` is under way, every other router that is connected to `s`
has recorded the number of the last one that `s` issued, and that one is the last it accepted. -/
theorem flooding_agrees {start : FloodNet} (hstart : FloodStart topo s start)
    (hrun : Relation.ReflTransGen (FloodStep topo s) start net) (hfew : net.issued.length < 65536)
    (hrest : ∀ c ∈ net.flight, sourceOf c.packet.block.memory ≠ s) {v : UInt16} (hv : v ≠ s)
    (hconnected : Relation.ReflTransGen topo.Adjacent s v) {last : Packet}
    (hlast : net.issued.getLast? = some last) :
    (net.router v).maxSequenceNum.get? s = some (sequenceOf last.block.memory) ∧
      net.accepted v = some last := by
  have h := FloodInv.run hstart hrun hfew
  have hagree := h.flood.agree (fun copy hcopy => by
    obtain ⟨c, hc, hs, -⟩ := hcopy
    exact hrest c hc hs) hconnected
  simp only [FloodNet.view, heldBy, if_neg hv, if_true] at hagree
  have hpos : 0 < net.issued.length := by
    cases hissued : net.issued with
    | nil => simp [hissued] at hlast
    | cons p rest => simp
  rw [List.getLast?_eq_getElem?] at hlast
  cases hget : (net.router v).maxSequenceNum.get? s with
  | none =>
    rw [hget] at hagree
    simp only [Option.map_none, Option.getD_none] at hagree
    omega
  | some newest =>
    rw [hget] at hagree
    simp only [Option.map_some, Option.getD_some] at hagree
    have hnewest := h.newest v
    rw [hget, eq_comm, Option.map_eq_some_iff] at hnewest
    obtain ⟨p, hp, hnumber⟩ := hnewest
    obtain ⟨k, hk⟩ := List.getElem?_of_mem (h.accepted v p hp)
    have hindex := h.numbered k p hk
    rw [hnumber] at hindex
    have hk' : k = net.issued.length - 1 := by omega
    rw [hk', hlast] at hk
    obtain rfl := Option.some.inj hk
    exact ⟨by rw [hnumber], hp⟩

def pairTopology : Topology where
  numPorts _ := 1
  portTo a b := if a = 1 ∧ b = 2 ∨ a = 2 ∧ b = 1 then some 0 else none
  farEnd a _ := if a = 1 then (2, 0) else (1, 0)
  links a b p h := by
    split at h
    · rename_i hab
      obtain rfl := Option.some.inj h
      rcases hab with ⟨rfl, rfl⟩ | ⟨rfl, rfl⟩ <;> exact ⟨by decide, 0, by decide, by decide⟩
    · cases h

def pairStart : FloodNet where
  router a :=
    if a = 1 then neighborsRouter [(2, 5)]
    else if a = 2 then { neighborsRouter [(1, 5)] with routerId := 2 }
    else Router.init 1 a .ls
  flight := []
  issued := []
  accepted _ := none

private theorem pairStart_start : FloodStart pairTopology 1 pairStart where
  wired a := by
    by_cases h1 : a = 1
    · subst h1
      refine ⟨rfl, fun b => ?_⟩
      by_cases hb : b = 2 <;> simp [pairStart, neighborsRouter, pairTopology, Table.get?_insert, hb]
    · by_cases h2 : a = 2
      · subst h2
        refine ⟨rfl, fun b => ?_⟩
        by_cases hb : b = 1 <;> simp [pairStart, neighborsRouter, pairTopology, Table.get?_insert, hb]
      · refine ⟨by simp [pairStart, h1, h2, Router.init], fun b => ?_⟩
        simp [pairStart, pairTopology, Router.init, h1, h2]
  sequenceNum := rfl
  maxSequenceNum v := by
    simp only [pairStart]
    split
    · rfl
    · split <;> rfl
  flight := by simp [pairStart]
  issued := rfl
  accepted _ := rfl

def pairCopy : Carried := ⟨2, 0, lsPacket (sampleEnv 1) (pairStart.router 1)⟩

def pairDelivered : FloodNet :=
  (pairStart.issue pairTopology 1 (sampleEnv 1) 1).deliver pairTopology 1 (sampleEnv 2) pairCopy []

private theorem pairDelivered_run :
    Relation.ReflTransGen (FloodStep pairTopology 1) pairStart pairDelivered :=
  .tail (.single (.issue (sampleEnv 1) 1)) (.deliver (sampleEnv 2) [] [] pairCopy rfl)

theorem flooding_agrees_pair :
    (pairDelivered.router 2).maxSequenceNum.get? 1 = some (sequenceOf pairCopy.packet.block.memory) ∧
      pairDelivered.accepted 2 = some pairCopy.packet := by
  have hrest : pairDelivered.flight = [] := List.eq_nil_of_length_eq_zero (by decide +kernel)
  exact flooding_agrees pairStart_start pairDelivered_run (by decide) (by simp [hrest]) (by decide)
    (.single (show (pairTopology.portTo 1 2).isSome by decide)) rfl

end Comp556.Ls
