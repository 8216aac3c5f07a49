import Mathlib.Data.Set.Insert
import Mathlib.Tactic.Common

/-!
# Stop and wait

One end sends the items of a sequence one at a time and moves on when it takes an acknowledgement
for that of the current item; the other end accepts a packet that it takes for that of the item it
expects. Packets and acknowledgements may be lost, repeated and reordered, but none arrives a whole
window late: it is enough that no end takes one item for another of the same window.
-/

namespace Comp556

/-- The item being sent, the items accepted so far, and the items whose packets and acknowledgements
are under way. -/
structure StopAndWait where
  sent : Nat
  received : Nat
  data : Set Nat
  acks : Set Nat

namespace StopAndWait

/-- Within a window, an end that is at item `n` takes item `j` for item `n` only if it is. -/
def Windowed (window total : Nat) (takes : Nat → Nat → Prop) : Prop :=
  ∀ n j, j ≤ n → n < j + window → n < total → takes n j → j = n

/-- `accepts n j`: a receiver that has accepted `n` items takes the packet of item `j` for the next.
`advances n j`: a sender at item `n` takes the acknowledgement of item `j` for that of item `n`. -/
inductive Step (window total : Nat) (accepts advances : Nat → Nat → Prop) (st st' : StopAndWait) : Prop
  | send (hopen : st.sent < total) (hsent : st'.sent = st.sent) (hreceived : st'.received = st.received)
      (hdata : st'.data ⊆ insert st.sent st.data) (hacks : st'.acks ⊆ st.acks)
  | accept (j : Nat) (hj : j ∈ st.data) (hfresh : st.sent + 1 < j + window)
      (hopen : st.received < total) (haccepts : accepts st.received j)
      (hsent : st'.sent = st.sent) (hreceived : st'.received = st.received + 1)
      (hdata : st'.data ⊆ st.data) (hacks : st'.acks ⊆ insert j st.acks)
  /-- A packet that is not the expected one is acknowledged all the same. -/
  | again (j : Nat) (hj : j ∈ st.data) (hother : j ≠ st.received)
      (hsent : st'.sent = st.sent) (hreceived : st'.received = st.received)
      (hdata : st'.data ⊆ st.data) (hacks : st'.acks ⊆ insert j st.acks)
  | advance (j : Nat) (hj : j ∈ st.acks) (hfresh : st.sent < j + window) (hopen : st.sent < total)
      (hadvances : advances st.sent j)
      (hsent : st'.sent = st.sent + 1) (hreceived : st'.received = st.received)
      (hdata : st'.data ⊆ st.data) (hacks : st'.acks ⊆ st.acks)
  /-- The network loses or repeats what is under way, or an end ignores what reaches it. -/
  | ignore (hsent : st'.sent = st.sent) (hreceived : st'.received = st.received)
      (hdata : st'.data ⊆ st.data) (hacks : st'.acks ⊆ st.acks)

/-- The receiver is level with the sender or one item ahead, no packet is ahead of the sender, and
every acknowledged item has been accepted. -/
structure Inv (total : Nat) (st : StopAndWait) : Prop where
  behind : st.sent ≤ st.received
  ahead : st.received ≤ st.sent + 1
  within : st.received ≤ total
  data : ∀ j ∈ st.data, j ≤ st.sent
  acks : ∀ j ∈ st.acks, j ≤ st.sent ∧ j < st.received

variable {window total : Nat} {accepts advances : Nat → Nat → Prop} {st st' : StopAndWait}

private theorem Inv.item_accepted (h : Inv total st) (haccept : Windowed window total accepts) {j : Nat}
    (hj : j ∈ st.data) (hfresh : st.sent + 1 < j + window) (hopen : st.received < total)
    (haccepts : accepts st.received j) : j = st.received := by
  have hsent := h.data j hj
  have hbehind := h.behind
  have hahead := h.ahead
  exact haccept st.received j (by omega) (by omega) hopen haccepts

/-- The acknowledgement the sender moves on with is that of the item it sends. -/
theorem Inv.item_acknowledged (h : Inv total st) (hadvance : Windowed window total advances) {j : Nat}
    (hj : j ∈ st.acks) (hfresh : st.sent < j + window) (hopen : st.sent < total)
    (hadvances : advances st.sent j) : j = st.sent :=
  hadvance st.sent j (h.acks j hj).1 hfresh hopen hadvances

private theorem Inv.of_counts (h : Inv total st) (hbehind : st'.sent ≤ st'.received)
    (hahead : st'.received ≤ st'.sent + 1) (hwithin : st'.received ≤ total)
    (hsent : st.sent ≤ st'.sent) (hreceived : st.received ≤ st'.received)
    (hdata : ∀ j ∈ st'.data, j ∈ st.data ∨ j ≤ st'.sent)
    (hacks : ∀ j ∈ st'.acks, j ∈ st.acks ∨ j ≤ st'.sent ∧ j < st'.received) : Inv total st' := by
  refine ⟨hbehind, hahead, hwithin, fun j hj => ?_, fun j hj => ?_⟩
  · rcases hdata j hj with hj | hj
    · exact (h.data j hj).trans hsent
    · exact hj
  · rcases hacks j hj with hj | hj
    · exact ⟨(h.acks j hj).1.trans hsent, (h.acks j hj).2.trans_le hreceived⟩
    · exact hj

theorem Inv.step (h : Inv total st) (haccept : Windowed window total accepts)
    (hadvance : Windowed window total advances) (hstep : Step window total accepts advances st st') :
    Inv total st' := by
  have hbehind := h.behind
  have hahead := h.ahead
  have hwithin := h.within
  cases hstep with
  | send hopen hsent hreceived hdata hacks =>
    refine h.of_counts (by omega) (by omega) (by omega) (by omega) (by omega) (fun j hj => ?_)
      fun j hj => .inl (hacks hj)
    rcases hdata hj with rfl | hj
    · exact .inr hsent.ge
    · exact .inl hj
  | accept j hj hfresh hopen haccepts hsent hreceived hdata hacks =>
    have hitem := h.item_accepted haccept hj hfresh hopen haccepts
    have hle := h.data j hj
    refine h.of_counts (by omega) (by omega) (by omega) (by omega) (by omega)
      (fun i hi => .inl (hdata hi)) fun i hi => ?_
    rcases hacks hi with rfl | hi
    · exact .inr ⟨by omega, by omega⟩
    · exact .inl hi
  | again j hj hother hsent hreceived hdata hacks =>
    -- a packet of another item is of one accepted before
    have hle := h.data j hj
    refine h.of_counts (by omega) (by omega) (by omega) (by omega) (by omega)
      (fun i hi => .inl (hdata hi)) fun i hi => ?_
    rcases hacks hi with rfl | hi
    · exact .inr ⟨by omega, by omega⟩
    · exact .inl hi
  | advance j hj hfresh hopen hadvances hsent hreceived hdata hacks =>
    have hitem := h.item_acknowledged hadvance hj hfresh hopen hadvances
    have haccepted := (h.acks j hj).2
    exact h.of_counts (by omega) (by omega) (by omega) (by omega) (by omega)
      (fun i hi => .inl (hdata hi)) fun i hi => .inl (hacks hi)
  | ignore hsent hreceived hdata hacks =>
    exact h.of_counts (by omega) (by omega) (by omega) (by omega) (by omega)
      (fun i hi => .inl (hdata hi)) fun i hi => .inl (hacks hi)

end StopAndWait

end Comp556
