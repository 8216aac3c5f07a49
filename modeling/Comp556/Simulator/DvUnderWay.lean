import Comp556.Foundation.Sequence
import Comp556.Simulator.DvOrder
import Comp556.Simulator.DvTopology
import Comp556.Simulator.Effects

/-!
# DV packets under way

A DV packet that a router sends is in `event_q` until it arrives, first as the transmission and then as the
arrival. The number of its transmission tells which packet was sent first.
-/

namespace Comp556.Sim

open Router Dv

variable {queue : EventQueue} {R : Type} {config : Config} {ln ln' a b x c : Nat} {p q p' q' u v w : UInt16}
    {limit : Nat}
variable {pkt : Packet} {sim sim' : Simulator queue R}

/-- The DV packet that the event puts on a link or brings. -/
def Event.flying (e : Event) : Option (Flight × Packet) :=
  match e.body with
  | .xmitPktOnLink dest _ ln pkt => if isDv pkt then some (⟨ln, dest, e.address⟩, pkt) else none
  | .recvPkt dest _ pkt origin => if isDv pkt then some (⟨origin.ln, dest, origin.sent⟩, pkt) else none
  | _ => none

/-- The same with its number, if it is on link `ln` and for node `dest`. -/
def Event.underWay (ln dest : Nat) (e : Event) : Option (Nat × Packet) :=
  e.flying.bind fun m => if m.1.ln = ln ∧ m.1.dest = dest then some (m.1.sent, m.2) else none

/-- The DV packets for node `dest` on link `ln` among the events. -/
def underWay (events : Multiset Event) (ln dest : Nat) : Multiset (Nat × Packet) :=
  events.filterMap (Event.underWay ln dest)

theorem Event.underWay_eq_some {e : Event} {m : Nat × Packet} :
    e.underWay ln b = some m ↔ e.flying = some (⟨ln, b, m.1⟩, m.2) := by
  rw [underWay, Option.bind_eq_some_iff]
  constructor
  · rintro ⟨⟨f, pkt⟩, hflying, hway⟩
    split at hway
    · rename_i heq
      obtain rfl := Option.some.inj hway
      obtain ⟨rfl, rfl⟩ := heq
      exact hflying
    · cases hway
  · exact fun hflying => ⟨_, hflying, if_pos ⟨rfl, rfl⟩⟩

theorem Event.underWay_unique {e : Event} {m m' : Nat × Packet} (h : e.underWay ln b = some m)
    (h' : e.underWay ln' c = some m') : ln = ln' ∧ b = c ∧ m = m' := by
  have heq := (underWay_eq_some.mp h).symm.trans (underWay_eq_some.mp h')
  simp only [Option.some.injEq, Prod.mk.injEq, Flight.mk.injEq] at heq
  exact ⟨heq.1.1, heq.1.2.1, Prod.ext heq.1.2.2 heq.2⟩

theorem Event.flying_eq (e : Event) : e.flying.map Prod.fst = e.dvDeparture.or e.dvArrival := by
  unfold flying dvDeparture dvArrival
  cases e.body with
  | xmitPktOnLink dest dport ln pkt => cases h : isDv pkt <;> simp
  | recvPkt dest dport pkt origin => cases h : isDv pkt <;> simp
  | _ => rfl

section Handler

variable (hconfig : config.WellFormed) (hsteady : config.Steady limit) (hcarries : config.Carries ln x p c q)
variable (hv : config.nodes[x]? = some v) (hw : config.nodes[c]? = some w)
include hconfig hcarries hv hw

private theorem underWay_of_performs {now : UInt32} {call : SysCall} {e : Event}
    (h : config.Performs a now call e) :
    ((e.underWay ln c).map Prod.snd).toList =
      if x = a then posted (config.topology hconfig hsteady) v w [call] else [] := by
  cases call with
  | setAlarm duration alarm =>
    simp [Event.underWay, Event.flying, h.2]
  | send port pkt =>
    obtain ⟨-, ln', b, q', hcarries', hbody⟩ := h
    have hport : (config.topology hconfig hsteady).portTo v w = some p :=
      portTo_of_carries hconfig hcarries hv hw
    have hway : ln' = ln ∧ b = c ↔ x = a ∧ p = port := by
      constructor
      · rintro ⟨rfl, rfl⟩
        exact hconfig.carries_start hcarries hcarries'
      · rintro ⟨rfl, rfl⟩
        exact hconfig.carries_end hcarries' hcarries
    simp only [Event.underWay, Event.flying, hbody, posted, hport, Option.some.injEq, List.filterMap_cons,
      List.filterMap_nil]
    by_cases hdv : PacketType.ofCode (pkt.block.memory 0) = some .dv
    · by_cases hx : x = a
      · by_cases hp : p = port <;> simp [isDv, hdv, hway, hx, hp]
      · simp [isDv, hdv, hway, hx]
    · simp [isDv, hdv]

theorem underWay_of_calls {now : UInt32} {calls : List SysCall} {news : List Event}
    (h : List.Forall₂ (config.Performs a now) calls news) :
    (news.filterMap (Event.underWay ln c)).map Prod.snd =
      if x = a then posted (config.topology hconfig hsteady) v w calls else [] := by
  induction h with
  | nil => simp [posted]
  | @cons call e calls news hfirst hrest ih =>
    have hone := underWay_of_performs hconfig hsteady hcarries hv hw hfirst
    have hcalls : posted (config.topology hconfig hsteady) v w (call :: calls) = _ :=
      posted_append v w [call] calls
    have hcons : (e :: news).filterMap (Event.underWay ln c) =
        (e.underWay ln c).toList ++ news.filterMap (Event.underWay ln c) := by
      rw [List.filterMap_cons]
      split <;> rename_i heq <;> rw [heq] <;> rfl
    rw [hcons, List.map_append, ih, ← Option.toList_map, hone, hcalls]
    split <;> rfl

end Handler

variable (ln c) in
theorem underWay_sorted {now : UInt32} {calls : List SysCall} {news : List Event} {first : Nat}
    (h : List.Forall₂ (config.Performs a now) calls news)
    (haddresses : news.map Event.address = List.range' first news.length) :
    (news.filterMap (Event.underWay ln c)).Pairwise (fun m n => m.1 < n.1) ∧
      ∀ m ∈ news.filterMap (Event.underWay ln c), first ≤ m.1 := by
  have hnumber : ∀ e ∈ news, ∀ m, e.underWay ln c = some m → m.1 = e.address := by
    intro e he m hm
    obtain ⟨call, -, hperforms⟩ := forall₂_exists_left h he
    cases call with
    | setAlarm duration alarm => simp [Event.underWay, Event.flying, hperforms.2] at hm
    | send port pkt =>
      obtain ⟨-, ln', b, q', -, hbody⟩ := hperforms
      rw [Event.underWay_eq_some, Event.flying, hbody] at hm
      dsimp only at hm
      split at hm
      · exact (congrArg (fun m => m.1.sent) (Option.some.inj hm)).symm
      · cases hm
  have hsorted : news.Pairwise fun e f => e.address < f.address := by
    rw [← List.pairwise_map, haddresses]
    exact List.pairwise_lt_range'
  constructor
  · refine List.Pairwise.filterMap _ (fun e f hef m hm n hn => ?_) (List.Pairwise.and_mem.mp hsorted)
    rw [hnumber e hef.1 m hm, hnumber f hef.2.1 n hn]
    exact hef.2.2
  · intro m hm
    obtain ⟨e, he, hm⟩ := List.mem_filterMap.mp hm
    rw [hnumber e he m hm]
    have hmem : e.address ∈ List.range' first news.length := haddresses ▸ List.mem_map_of_mem he
    exact (List.mem_range'_1.mp hmem).1

end Comp556.Sim
