import Comp556.Simulator.Run
import Mathlib.Data.Multiset.Range

/-!
# Every event once, in time order

Nothing is pushed before the current time, so the event under dispatch stays on top until it is
popped.
-/

namespace Comp556.Sim

variable {queue : EventQueue} {R : Type}

namespace Simulator

def queued (sim : Simulator queue R) : Multiset Nat := (queue.elements sim.eventQ).map Event.address

/-- What the loop keeps: nothing queued is due before now, and every event allocated so far is in
the queue or has been dispatched, exactly once. -/
structure OnTime (turns : List Turn) (sim : Simulator queue R) : Prop where
  future : ∀ e ∈ queue.elements sim.eventQ, sim.globalTime ≤ e.time
  past : ∀ t ∈ turns, t.time ≤ sim.globalTime
  times : turns.Pairwise fun t t' => t.time ≤ t'.time
  popped : ∀ t ∈ turns, t.popped = t.dispatched
  accounted : (turns.map fun t => t.dispatched.address : List Nat) + sim.queued = Multiset.range sim.created

variable {sim sim' : Simulator queue R} {news : List Event}

theorem Grown.elements (h : Grown sim news sim') :
    queue.elements sim'.eventQ = queue.elements sim.eventQ + news := by
  rw [h.eventQ, queue.elements_pushAll]

theorem Grown.queued (h : Grown sim news sim') :
    sim'.queued = sim.queued + List.range' sim.created news.length := by
  rw [Simulator.queued, h.elements, Multiset.map_add, Multiset.map_coe, h.addresses, Simulator.queued]

theorem range_add (n m : Nat) : Multiset.range (n + m) = Multiset.range n + List.range' n m := by
  have hlist : List.range (n + m) = List.range n ++ List.range' n m := by
    simpa [List.range_eq_range'] using (List.range'_append_1 (s := 0) (m := n) (n := m)).symm
  rw [Multiset.range, hlist]
  rfl

theorem Grown.onTime {turns : List Turn} (h : Grown sim news sim') (hfit : sim'.overflowed = false)
    (hsim : OnTime turns sim) : OnTime turns sim' where
  future e he := by
    rw [h.globalTime]
    rcases Multiset.mem_add.mp (h.elements ▸ he) with he | he
    · exact hsim.future e he
    · exact h.due hfit e he
  past := h.globalTime ▸ hsim.past
  times := hsim.times
  popped := hsim.popped
  accounted := by rw [h.queued, ← Multiset.add_assoc, hsim.accounted, h.created, range_add]

variable {protocol : RoutingProtocol R} {chance : Chance} {turns : List Turn} {t : Turn}

theorem OnTime.turn (hsim : OnTime turns sim) (h : sim.turn protocol chance = some (t, sim'))
    (hfit : sim'.overflowed = false) : OnTime (turns ++ [t]) sim' := by
  obtain ⟨htop, news, mid, hgrown, -, htime, hpopped, rfl⟩ := turn_effect h
  have hmem := queue.mem_of_top htop
  have hstays : queue.top mid.eventQ = some t.dispatched := by
    rw [hgrown.eventQ]
    exact queue.top_pushAll htop fun n hn => Nat.not_lt.mpr (UInt32.le_iff_toNat_le.mp (hgrown.due hfit n hn))
  have hsame : t.popped = t.dispatched := Option.some.inj (hpopped.symm.trans hstays)
  have hpop := queue.elements_pop hstays
  have hearly : ∀ t' ∈ turns, t'.time ≤ t.time := fun t' ht' =>
    htime ▸ UInt32.le_trans (hsim.past t' ht') (hsim.future _ hmem)
  have hmid : OnTime turns mid := by
    refine hgrown.onTime hfit ⟨fun e he => ?_, fun t' ht' => htime ▸ hearly t' ht', hsim.times, hsim.popped,
      hsim.accounted⟩
    exact UInt32.le_iff_toNat_le.mpr (queue.top_le htop he)
  constructor
  case future => exact fun e he => hmid.future e (hpop ▸ Multiset.mem_cons_of_mem he)
  case past =>
    intro t' ht'
    rcases List.mem_append.mp ht' with ht' | ht'
    · exact hmid.past t' ht'
    · rw [List.mem_singleton.mp ht', htime]
      exact UInt32.le_of_eq hgrown.globalTime.symm
  case times =>
    exact List.pairwise_append.mpr ⟨hsim.times, List.pairwise_singleton _ _, by simpa using hearly⟩
  case popped =>
    intro t' ht'
    rcases List.mem_append.mp ht' with ht' | ht'
    · exact hsim.popped t' ht'
    · rw [List.mem_singleton.mp ht', hsame]
  case accounted =>
    have hqueued : mid.queued = t.dispatched.address ::ₘ mid.pop.queued := by
      rw [Simulator.queued, hpop, Multiset.map_cons]
      rfl
    have hdone : ((turns ++ [t]).map fun t => t.dispatched.address : Multiset Nat) =
        t.dispatched.address ::ₘ (turns.map fun t => t.dispatched.address : List Nat) := by
      rw [List.map_append]
      exact Multiset.coe_eq_coe.mpr List.perm_append_comm
    have haccounted := hmid.accounted
    rwa [hqueued, Multiset.add_cons, ← Multiset.cons_add, ← hdone] at haccounted

theorem overflowed_of_turn (h : sim.turn protocol chance = some (t, sim')) (hfit : sim'.overflowed = false) :
    sim.overflowed = false := by
  obtain ⟨-, news, mid, hgrown, -, -, -, rfl⟩ := turn_effect h
  exact hgrown.inRange hfit

private theorem runs_onTime {admits : Simulator queue R → Chance → Prop} {sim₀ : Simulator queue R}
    (hstart : sim₀.overflowed = false → OnTime [] sim₀) (hrun : Runs protocol admits sim₀ turns sim)
    (hfit : sim.overflowed = false) : OnTime turns sim := by
  induction hrun with
  | start => exact hstart hfit
  | turn _ _ _ next ih => exact (ih (overflowed_of_turn next hfit)).turn next hfit

private theorem handled_pushEvents {sim : Simulator queue R} (hzero : sim.globalTime = 0)
    (events : List (UInt32 × ConfigEvent)) : Handled sim (sim.pushEvents events) := by
  induction events generalizing sim with
  | nil => exact ⟨[], .refl sim, by simp⟩
  | cons e events ih =>
    have hdue : sim.globalTime ≤ e.1 := hzero ▸ UInt32.zero_le
    have hfirst := Handled.of_grown (sim.grown_push hdue e.2.body)
      (by cases h : e.2 <;> simp [ConfigEvent.body, Event.IsRecv])
    exact hfirst.trans (ih hzero)

/-- The simulator as `run` finds it: everything was pushed into an empty queue at time 0. -/
theorem started_handled {config : Config} {chance : Nat → Chance}
    (h : started queue config protocol chance = some sim) :
    Handled (blank queue config protocol chance) sim :=
  foldlM_invariant (Handled _) h (handled_pushEvents rfl _) fun _ _ _ hs hcalls =>
    hs.trans (handled_calls hcalls)

theorem started_onTime {config : Config} {chance : Nat → Chance}
    (h : started queue config protocol chance = some sim) (hfit : sim.overflowed = false) :
    OnTime [] sim := by
  obtain ⟨news, hgrown, -⟩ := started_handled h
  refine hgrown.onTime hfit ⟨?_, by simp, .nil, by simp, ?_⟩
  · simp [blank, queue.elements_empty]
  · simp [queued, blank, queue.elements_empty]

/-- As long as no event time overflows, each turn of `run` pops the event it dispatched, every event
allocated so far has been dispatched once or is still queued, and the clock never goes back. -/
theorem run_dispatches_once {config : Config} {chances : Nat → Chance} {sim₀ : Simulator queue R}
    (hstart : started queue config protocol chances = some sim₀)
    (hrun : Runs protocol anyTurn sim₀ turns sim) (hfit : sim.overflowed = false) :
    (∀ t ∈ turns, t.popped = t.dispatched) ∧
    (turns.map fun t => t.dispatched.address : List Nat) + sim.queued = Multiset.range sim.created ∧
    (turns.map fun t => t.dispatched.address).Nodup ∧
    (∀ t ∈ turns, t.dispatched.address ∉ sim.queued) ∧
    (queue.top sim.eventQ = none →
      (turns.map fun t => t.dispatched.address : List Nat) = Multiset.range sim.created) ∧
    (turns.map Turn.time).Pairwise (· ≤ ·) := by
  have hsim := runs_onTime (started_onTime hstart) hrun hfit
  have hnodup := hsim.accounted ▸ Multiset.nodup_range sim.created
  obtain ⟨hdone, -, happart⟩ := Multiset.nodup_add.mp hnodup
  refine ⟨hsim.popped, hsim.accounted, hdone, ?_, ?_, ?_⟩
  · intro t ht
    exact Multiset.disjoint_left.mp happart (Multiset.mem_coe.mpr (List.mem_map.mpr ⟨t, ht, rfl⟩))
  · intro htop
    have hempty : sim.queued = 0 := by rw [queued, queue.top_eq_none htop, Multiset.map_zero]
    simpa [hempty] using hsim.accounted
  · exact List.pairwise_map.mpr hsim.times

theorem sampleRun_dispatches_once :
    ∃ (turns : List Turn) (sim : Simulator .oldestFirst Router),
      turns.length = 26 ∧ sim.globalTime = 30 ∧ (∀ t ∈ turns, t.popped = t.dispatched) ∧
      (turns.map fun t => t.dispatched.address : List Nat) + sim.queued = Multiset.range sim.created ∧
      (turns.map Turn.time).Pairwise (· ≤ ·) := by
  have hrun : (sampleStart .oldestFirst 11 [(21, .changeDelay 0 1)]).any fun sim =>
      (sim.run (routingProtocolImpl .dv) (List.replicate 26 quietChance)).any fun out =>
        decide (out.1.length = 26 ∧ out.2.globalTime = 30 ∧ out.2.overflowed = false) := by
    decide +kernel
  obtain ⟨sim₀, turns, sim, hstart, hruns, hholds⟩ :=
    exists_sampleRun hrun fun sim _ _ => admitsAll_anyTurn _ sim _
  obtain ⟨hcount, htime, hfit⟩ := of_decide_eq_true hholds
  obtain ⟨hpopped, haccounted, -, -, -, htimes⟩ := run_dispatches_once hstart hruns hfit
  exact ⟨turns, sim, hcount, htime, hpopped, haccounted, htimes⟩

end Simulator

end Comp556.Sim
