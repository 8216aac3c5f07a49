import Comp556.Simulator.Clock

/-!
# The order of DV packets

A DV packet carries no number, so a router applies advertisements in the order in which they arrive.
They arrive in the order they were sent as long as they are put on the link in that order, no delay
lets one overtake another, and the queue hands out simultaneous arrivals in the right order.
-/

namespace Comp556.Sim

/-- A DV packet on its way: the link it is for, the node it goes to, and the address of its
transmission event. Addresses grow with every event, so they tell which packet was sent first. -/
structure Flight where
  ln : Nat
  dest : Nat
  sent : Nat
  deriving DecidableEq

def Flight.SameWay (a b : Flight) : Prop := a.ln = b.ln ∧ a.dest = b.dest

instance (a b : Flight) : Decidable (a.SameWay b) := inferInstanceAs (Decidable (_ ∧ _))

/-- If both are packets on the same way, the first is not the one sent later. -/
def SentBefore (p q : Option Flight) : Prop := ∀ a ∈ p, ∀ b ∈ q, a.SameWay b → a.sent ≤ b.sent

instance (p q : Option Flight) : Decidable (SentBefore p q) :=
  inferInstanceAs (Decidable (∀ a ∈ p, ∀ b ∈ q, a.SameWay b → a.sent ≤ b.sent))

def isDv (pkt : Packet) : Bool := PacketType.ofCode (pkt.block.memory 0) = some .dv

/-- The copy of a DV packet that a node receives goes to `DVProImp::recv`. -/
theorem recv_copy_of_isDv {pkt : Packet} (hdv : isDv pkt) (hsize : pkt.size ≠ 0) (type : ProtocolType)
    (env : Env) (port : UInt16) (chance : Chance) (r : Router) :
    (routingProtocolImpl type).recv env port (Simulator.copyPacket chance pkt) r =
      Dv.recv env port (Simulator.copyPacket chance pkt).block.memory pkt.size r := by
  have hpos : 0 < pkt.size.toNat := Nat.pos_of_ne_zero fun h => hsize (UInt16.toNat_inj.mp h)
  have hfirst : (Simulator.copyPacket chance pkt).block.memory 0 = pkt.block.memory 0 := by
    simp [Simulator.copyPacket, Buffer.store, Memory.store, Memory.load, hpos]
  simp only [routingProtocolImpl, Router.recv, hfirst, of_decide_eq_true hdv]
  rfl

namespace Event

def dvDeparture (e : Event) : Option Flight :=
  match e.body with
  | .xmitPktOnLink dest _ ln pkt => if isDv pkt then some ⟨ln, dest, e.address⟩ else none
  | _ => none

def dvArrival (e : Event) : Option Flight :=
  match e.body with
  | .recvPkt dest _ pkt origin => if isDv pkt then some ⟨origin.ln, dest, origin.sent⟩ else none
  | _ => none

/-- Of two DV packets on the same way, the second is not due before the first if it was sent later. -/
def NotOvertaken (f g : Event) : Prop :=
  ∀ a ∈ f.dvArrival, ∀ b ∈ g.dvArrival, a.SameWay b → a.sent < b.sent → f.time ≤ g.time

instance (f g : Event) : Decidable (f.NotOvertaken g) :=
  inferInstanceAs (Decidable (∀ a ∈ f.dvArrival, ∀ b ∈ g.dvArrival, a.SameWay b → a.sent < b.sent →
    f.time ≤ g.time))

private theorem isRecv_of_dvArrival {e : Event} {a : Flight} (h : a ∈ e.dvArrival) : e.IsRecv := by
  unfold dvArrival at h
  split at h
  case h_1 dest dport pkt origin hbody => exact ⟨dest, dport, pkt, origin, hbody⟩
  case h_2 => cases h

theorem sent_of_dvDeparture {e : Event} {a : Flight} (h : a ∈ e.dvDeparture) : a.sent = e.address := by
  unfold dvDeparture at h
  split at h
  case h_1 =>
    split at h
    · rw [← Option.some.inj h]
    · cases h
  case h_2 => cases h

private theorem notOvertaken_self (e : Event) : e.NotOvertaken e := by
  intro a ha b hb _ hlt
  obtain rfl := Option.mem_unique ha hb
  exact absurd hlt (Nat.lt_irrefl _)

end Event

namespace Simulator

variable {queue : EventQueue} {R : Type}

/-- The turn keeps DV packets in order. The one it puts on a link was not sent after another that
still waits for that, and is not due before one under way that was sent earlier; and no arrival is
taken before a simultaneous one of a packet sent earlier. -/
structure InOrder (sim : Simulator queue R) (chance : Chance) : Prop where
  departure : ∀ e ∈ queue.top sim.eventQ, ∀ f ∈ queue.elements sim.eventQ,
    SentBefore e.dvDeparture f.dvDeparture
  delay : ∀ e ∈ queue.top sim.eventQ, ∀ n ∈ sim.transmitted chance e,
    ∀ f ∈ queue.elements sim.eventQ, f.NotOvertaken n
  arrival : ∀ e ∈ queue.top sim.eventQ, ∀ f ∈ queue.elements sim.eventQ,
    f.time = e.time → SentBefore e.dvArrival f.dvArrival

instance (sim : Simulator queue R) (chance : Chance) : Decidable (InOrder sim chance) :=
  decidable_of_iff
    ((∀ e ∈ queue.top sim.eventQ, ∀ f ∈ queue.elements sim.eventQ,
        SentBefore e.dvDeparture f.dvDeparture) ∧
      (∀ e ∈ queue.top sim.eventQ, ∀ n ∈ sim.transmitted chance e,
        ∀ f ∈ queue.elements sim.eventQ, f.NotOvertaken n) ∧
      ∀ e ∈ queue.top sim.eventQ, ∀ f ∈ queue.elements sim.eventQ,
        f.time = e.time → SentBefore e.dvArrival f.dvArrival)
    ⟨fun h => ⟨h.1, h.2.1, h.2.2⟩, fun h => ⟨h.departure, h.delay, h.arrival⟩⟩

/-- The DV packet has been put on its link: it is under way or has arrived. -/
def Departed (turns : List Turn) (sim : Simulator queue R) (a : Flight) : Prop :=
  (∃ f ∈ queue.elements sim.eventQ, a ∈ f.dvArrival) ∨ ∃ t ∈ turns, a ∈ t.dispatched.dvArrival

/-- What such turns keep. -/
structure Sequenced (turns : List Turn) (sim : Simulator queue R) : Prop where
  allocated : ∀ f ∈ queue.elements sim.eventQ, f.address < sim.created
  departed : ∀ a, Departed turns sim a →
    a.sent < sim.created ∧ ∀ f ∈ queue.elements sim.eventQ, SentBefore (some a) f.dvDeparture
  flying : ∀ f ∈ queue.elements sim.eventQ, ∀ g ∈ queue.elements sim.eventQ, f.NotOvertaken g
  waiting : ∀ t ∈ turns, ∀ f ∈ queue.elements sim.eventQ, SentBefore t.dispatched.dvArrival f.dvArrival
  received : turns.Pairwise fun t t' => SentBefore t.dispatched.dvArrival t'.dispatched.dvArrival

variable {protocol : RoutingProtocol R} {sim sim' : Simulator queue R} {turns : List Turn}
  {chance : Chance} {t : Turn}

theorem Grown.address {news : List Event} (h : Grown sim news sim') {n : Event} (hn : n ∈ news) :
    sim.created ≤ n.address ∧ n.address < sim'.created := by
  have hmem : n.address ∈ List.range' sim.created news.length :=
    h.addresses ▸ List.mem_map_of_mem hn
  rw [h.created]
  exact List.mem_range'_1.mp hmem

private theorem dvArrival_of_transmitted {e n : Event} (h : n ∈ sim.transmitted chance e) :
    n.dvArrival = e.dvDeparture ∧ e.dvArrival = none := by
  unfold transmitted at h
  split at h
  case h_1 dest dport ln pkt hbody =>
    obtain ⟨link, -, hn⟩ := Option.bind_eq_some_iff.mp h
    split at hn
    case isTrue =>
      obtain rfl := Option.some.inj hn
      rw [Event.dvDeparture, Event.dvArrival, Event.dvArrival, hbody]
      exact ⟨rfl, rfl⟩
    case isFalse => cases hn
  case h_2 => cases h

/-- An event in the queue after a turn was there before, or the turn has allocated it; an arrival
among the latter is that of the packet transmitted. -/
private theorem queued_origin (h : sim.turn protocol chance = some (t, sim')) {f : Event}
    (hf : f ∈ queue.elements sim'.eventQ) :
    f ∈ queue.elements sim.eventQ ∨ sim.created ≤ f.address ∧ f.address < sim'.created ∧
      ∀ a ∈ f.dvArrival, f ∈ sim.transmitted chance t.dispatched := by
  obtain ⟨-, news, mid, hgrown, hnews, -, hpopped, rfl⟩ := turn_effect h
  have hmid : f ∈ queue.elements mid.eventQ := queue.elements_pop hpopped ▸ Multiset.mem_cons_of_mem hf
  rcases Multiset.mem_add.mp (hgrown.elements ▸ hmid) with hold | hnew
  · exact .inl hold
  · obtain ⟨hle, hlt⟩ := hgrown.address hnew
    exact .inr ⟨hle, hlt, fun a ha => hnews f hnew (Event.isRecv_of_dvArrival ha)⟩

private theorem created_le_of_turn (h : sim.turn protocol chance = some (t, sim')) :
    sim.created ≤ sim'.created := by
  obtain ⟨-, news, mid, hgrown, -, -, -, rfl⟩ := turn_effect h
  exact hgrown.created ▸ Nat.le_add_right _ _

private theorem flight_origin (h : sim.turn protocol chance = some (t, sim')) {f : Event}
    (hf : f ∈ queue.elements sim'.eventQ) {a : Flight} (ha : a ∈ f.dvArrival) :
    f ∈ queue.elements sim.eventQ ∨
      f ∈ sim.transmitted chance t.dispatched ∧ a ∈ t.dispatched.dvDeparture := by
  rcases queued_origin h hf with hold | ⟨-, -, hnew⟩
  · exact .inl hold
  · have hn := hnew a ha
    exact .inr ⟨hn, (dvArrival_of_transmitted hn).1 ▸ ha⟩

private theorem departed_origin (h : sim.turn protocol chance = some (t, sim')) {a : Flight}
    (ha : Departed (turns ++ [t]) sim' a) : Departed turns sim a ∨ a ∈ t.dispatched.dvDeparture := by
  have hmem := queue.mem_of_top (turn_effect h).1
  rcases ha with ⟨f, hf, ha⟩ | ⟨t', ht', ha⟩
  · rcases flight_origin h hf ha with hf | ⟨-, hleft⟩
    · exact .inl (.inl ⟨f, hf, ha⟩)
    · exact .inr hleft
  · rcases List.mem_append.mp ht' with ht' | ht'
    · exact .inl (.inr ⟨t', ht', ha⟩)
    · obtain rfl := List.mem_singleton.mp ht'
      exact .inl (.inl ⟨_, hmem, ha⟩)

private theorem Sequenced.departing (hsim : Sequenced turns sim) {e : Event}
    (he : e ∈ queue.elements sim.eventQ)
    {a b : Flight} (ha : Departed turns sim a) (hb : b ∈ e.dvDeparture) (hway : a.SameWay b) :
    a.sent ≤ b.sent :=
  (hsim.departed a ha).2 e he a rfl b hb hway

private theorem Sequenced.departed_turn (hsim : Sequenced turns sim) (hadmits : InOrder sim chance)
    (h : sim.turn protocol chance = some (t, sim')) {a : Flight} (ha : Departed (turns ++ [t]) sim' a) :
    a.sent < sim'.created ∧ ∀ f ∈ queue.elements sim'.eventQ, SentBefore (some a) f.dvDeparture := by
  have htop := (turn_effect h).1
  have hbefore : a.sent < sim.created ∧
      ∀ f ∈ queue.elements sim.eventQ, SentBefore (some a) f.dvDeparture := by
    rcases departed_origin h ha with ha | ha
    · exact hsim.departed a ha
    · constructor
      · exact Event.sent_of_dvDeparture ha ▸ hsim.allocated _ (queue.mem_of_top htop)
      · intro f hf
        exact Option.mem_def.mp ha ▸ hadmits.departure _ htop f hf
  apply And.intro (Nat.lt_of_lt_of_le hbefore.1 (created_le_of_turn h))
  intro f hf
  rcases queued_origin h hf with hf | ⟨hle, -, -⟩
  · exact hbefore.2 f hf
  · intro a' ha' b hb _
    rw [← Option.some.inj ha', Event.sent_of_dvDeparture hb]
    exact (Nat.lt_of_lt_of_le hbefore.1 hle).le

theorem Sequenced.turn (hsim : Sequenced turns sim) (hadmits : InOrder sim chance)
    (h : sim.turn protocol chance = some (t, sim')) : Sequenced (turns ++ [t]) sim' := by
  have htop := (turn_effect h).1
  have hmem := queue.mem_of_top htop
  constructor
  case allocated =>
    intro f hf
    rcases queued_origin h hf with hf | ⟨-, hlt, -⟩
    · exact Nat.lt_of_lt_of_le (hsim.allocated f hf) (created_le_of_turn h)
    · exact hlt
  case departed => exact fun a ha => hsim.departed_turn hadmits h ha
  case flying =>
    intro f hf g hg a ha b hb hway hlt
    rcases flight_origin h hf ha with hf | ⟨hf, hleft⟩ <;> rcases flight_origin h hg hb with hg | ⟨hg, -⟩
    · exact hsim.flying f hf g hg a ha b hb hway hlt
    · exact hadmits.delay _ htop g hg f hf a ha b hb hway hlt
    · -- what has just left was not sent before what is under way
      have hle := hsim.departing hmem (.inl ⟨g, hg, hb⟩) hleft ⟨hway.1.symm, hway.2.symm⟩
      exact absurd hlt (Nat.not_lt.mpr hle)
    · obtain rfl := Option.mem_unique hf hg
      exact f.notOvertaken_self a ha b hb hway hlt
  case waiting =>
    intro t' ht' f hf a ha b hb hway
    rcases List.mem_append.mp ht' with ht' | ht' <;> rcases flight_origin h hf hb with hf | ⟨hf, hleft⟩
    · exact hsim.waiting t' ht' f hf a ha b hb hway
    · exact hsim.departing hmem (.inr ⟨t', ht', ha⟩) hleft hway
    · obtain rfl := List.mem_singleton.mp ht'
      -- what is left in the queue is due no earlier, and what was sent earlier is not due later
      by_contra hlt
      have hback : b.SameWay a := ⟨hway.1.symm, hway.2.symm⟩
      have hle := hsim.flying f hf _ hmem b hb a ha hback (Nat.not_le.mp hlt)
      have hge := UInt32.le_iff_toNat_le.mpr (queue.top_le htop hf)
      exact hlt (hadmits.arrival _ htop f hf (UInt32.le_antisymm hle hge) a ha b hb hway)
    · obtain rfl := List.mem_singleton.mp ht'
      rw [(dvArrival_of_transmitted hf).2] at ha
      cases ha
  case received =>
    refine List.pairwise_append.mpr ⟨hsim.received, List.pairwise_singleton _ _, ?_⟩
    intro t' ht' t'' ht''
    obtain rfl := List.mem_singleton.mp ht''
    exact hsim.waiting t' ht' _ hmem

theorem started_sequenced {config : Config} {chances : Nat → Chance}
    (h : started queue config protocol chances = some sim) : Sequenced [] sim := by
  obtain ⟨news, hgrown, hnews⟩ := started_handled h
  have hnew : ∀ f ∈ queue.elements sim.eventQ, f ∈ news := by
    intro f hf
    simpa [hgrown.elements, blank, queue.elements_empty] using hf
  have hnone : ∀ f ∈ queue.elements sim.eventQ, ∀ a, a ∉ f.dvArrival := fun f hf a ha =>
    hnews f (hnew f hf) (Event.isRecv_of_dvArrival ha)
  constructor
  case allocated => exact fun f hf => (hgrown.address (hnew f hf)).2
  case departed =>
    intro a ha
    rcases ha with ⟨f, hf, ha⟩ | ⟨t, ht, -⟩
    · exact absurd ha (hnone f hf a)
    · cases ht
  case flying => exact fun f hf g _ a ha => absurd ha (hnone f hf a)
  case waiting => simp
  case received => exact .nil

/-- DV packets are applied in the order they were sent in every run whose turns keep them in order. -/
theorem dv_applied_in_order {config : Config} {chances : Nat → Chance} {type : ProtocolType}
    {sim₀ sim : Simulator queue Router}
    (hstart : started queue config (routingProtocolImpl type) chances = some sim₀)
    (hrun : Runs (routingProtocolImpl type) InOrder sim₀ turns sim) :
    turns.Pairwise fun t t' => SentBefore t.dispatched.dvArrival t'.dispatched.dvArrival := by
  have hsim : Sequenced turns sim := by
    induction hrun with
    | start => exact started_sequenced hstart
    | turn _ _ admitted next ih => exact ih.turn admitted next
  exact hsim.received

theorem steadyRun_in_order :
    ∃ turns : List Turn,
      (turns.filterMap fun t => t.dispatched.dvArrival).filter (fun a => a.ln = 0 ∧ a.dest = 1) =
        [⟨0, 1, 25⟩, ⟨0, 1, 30⟩] ∧
      turns.Pairwise fun t t' => SentBefore t.dispatched.dvArrival t'.dispatched.dvArrival := by
  have hrun : (sampleStart .oldestFirst 11 []).any fun sim =>
      (sim.run (routingProtocolImpl .dv) (List.replicate 30 quietChance)).any fun out =>
        decide ((out.1.filterMap fun t => t.dispatched.dvArrival).filter
            (fun a => a.ln = 0 ∧ a.dest = 1) = [⟨0, 1, 25⟩, ⟨0, 1, 30⟩] ∧
          AdmitsAll (routingProtocolImpl .dv) InOrder sim (List.replicate 30 quietChance)) := by
    decide +kernel
  obtain ⟨sim₀, turns, sim, hstart, hruns, hholds⟩ :=
    exists_sampleRun hrun fun _ _ hholds => (of_decide_eq_true hholds).2
  exact ⟨turns, (of_decide_eq_true hholds).1, dv_applied_in_order hstart hruns⟩

/-- Some run from the configuration does not apply DV packets in order. -/
def OutOfOrder (queue : EventQueue) (config : Config) : Prop :=
  ∃ sim₀ turns sim,
    started queue config (routingProtocolImpl .dv) (fun _ => quietChance) = some sim₀ ∧
      Runs (routingProtocolImpl .dv) anyTurn sim₀ turns sim ∧ sim.overflowed = false ∧
      ¬ turns.Pairwise fun t t' => SentBefore t.dispatched.dvArrival t'.dispatched.dvArrival

private theorem outOfOrder_of_run (count : Nat) {delay : UInt32} {events : List (UInt32 × ConfigEvent)}
    (h : (sampleStart queue delay events).any fun sim =>
      (sim.run (routingProtocolImpl .dv) (List.replicate count quietChance)).any fun out =>
        decide (out.2.overflowed = false ∧ ¬ out.1.Pairwise fun t t' =>
          SentBefore t.dispatched.dvArrival t'.dispatched.dvArrival)) :
    OutOfOrder queue (sampleConfig delay events) := by
  obtain ⟨sim₀, turns, sim, hstart, hruns, hholds⟩ :=
    exists_sampleRun h fun sim _ _ => admitsAll_anyTurn _ sim _
  exact ⟨sim₀, turns, sim, hstart, hruns, of_decide_eq_true hholds⟩

/-- The order fails in two ways. A packet of router 1 to router 2 leaves after the delay has gone
down from 10 ms to 1 ms, and arrives first. Or the pongs of both neighbours arrive together, each
makes router 1 send to router 2, and the queue hands out the later one first. -/
theorem dv_out_of_order :
    OutOfOrder .oldestFirst (sampleConfig 11 [(21, .changeDelay 0 1)]) ∧
      OutOfOrder .newestFirst (sampleConfig 10 []) := by
  constructor
  · apply outOfOrder_of_run 26
    decide +kernel
  · apply outOfOrder_of_run 30
    decide +kernel

end Simulator

end Comp556.Sim
