import Comp556.Foundation.Run
import Comp556.Ping.Echo

/-!
# The receive buffer of a connection

Where `recv` may put bytes and where the server reads them, whatever a client sends. One count is the
offset of the calls and is tested for the end of the connection, and -1 is added to it as well.
-/

namespace Comp556.Ping

/-- `(size_t)n`. -/
def sizeT (n : Int) : Nat := (n % 2 ^ 64).toNat

private theorem sizeT_of_nonneg {n : Int} (h : 0 ≤ n) (hlt : n < 2 ^ 64) : (sizeT n : Int) = n := by
  rw [sizeT, Int.emod_eq_of_lt h hlt, Int.toNat_of_nonneg h]

private theorem sizeT_of_neg {n : Int} (h : n < 0) (hge : -2 ^ 63 ≤ n) : 2 ^ 63 ≤ sizeT n := by
  rw [sizeT]
  omega

def RecvResult.Respects (r : RecvResult) (len : Int) : Prop := r.bytes.length ≤ sizeT len

instance (r : RecvResult) (len : Int) : Decidable (r.Respects len) := inferInstanceAs (Decidable (_ ≤ _))

theorem RecvResult.Respects.value_le {r : RecvResult} {len : Int} (h : r.Respects len) (hlen : 0 ≤ len)
    (hlt : len < 2 ^ 64) : r.value ≤ len := by
  have hasked := sizeT_of_nonneg hlen hlt
  have hbytes : r.bytes.length ≤ sizeT len := h
  cases r with
  | data bytes =>
    simp only [RecvResult.bytes, RecvResult.value] at hbytes ⊢
    omega
  | closed => exact hlen
  | again => exact Int.le_trans (by decide) hlen

private theorem RecvResult.value_cases (r : RecvResult) :
    r = .again ∧ r.value = -1 ∨ r ≠ .again ∧ 0 ≤ r.value := by
  cases r with
  | data bytes => exact .inr ⟨by simp, Int.natCast_nonneg _⟩
  | closed => exact .inr ⟨by simp, Int.le_refl 0⟩
  | again => exact .inl ⟨rfl, rfl⟩

private theorem SendResult.value_cases (r : SendResult) :
    r = .again ∧ r.value = -1 ∨ r ≠ .again ∧ 0 ≤ r.value := by
  cases r with
  | sent n => exact .inr ⟨by simp, Int.natCast_nonneg _⟩
  | again => exact .inl ⟨rfl, rfl⟩

def Action.client {ι : Type} : Action ι → ι
  | .write i _ | .finish i | .ready i _ | .readHead i _ | .headDone i | .readBody i _ | .bodyDone i
  | .answer i _ | .answered i => i

/-- An access, as offset and length, in the first `size` bytes of a buffer. -/
def Within (size : Int) (access : Int × Nat) : Prop := 0 ≤ access.1 ∧ access.1 + access.2 ≤ size

def InRange (count : Int) : Prop := 0 ≤ count ∧ count ≤ bufferLen

instance (count : Int) : Decidable (InRange count) := inferInstanceAs (Decidable (_ ∧ _))

private theorem within_whole_iff {n : Int} (h : InRange n) : Within bufferLen (n, sizeT bufferLen) ↔ n = 0 := by
  have hlength : (sizeT bufferLen : Int) = bufferLen := sizeT_of_nonneg (by decide) (by decide)
  obtain ⟨hlow, hhigh⟩ := h
  simp only [Within, hlength]
  omega

private theorem within_rest_iff (n : Int) : Within bufferLen (n, sizeT (bufferLen - n)) ↔ InRange n := by
  constructor
  · rintro ⟨hlow, hhigh⟩
    dsimp only at hlow hhigh
    exact ⟨hlow, by omega⟩
  · rintro ⟨hlow, hhigh⟩
    have hlength := sizeT_of_nonneg (n := bufferLen - n) (by omega) (by simp only [bufferLen]; omega)
    refine ⟨hlow, ?_⟩
    dsimp only
    omega

/-- The reads of a message stay in what has been received if the message is longer than its header and
all of it is there. -/
private theorem within_message_iff {count : Int} (h : InRange count) {size : Nat} (hsize : size < 2 ^ 16) :
    (∀ read ∈ [((0 : Int), 2), (2, 8), (10, 8), (18, sizeT (size - 18))], Within count read) ↔
      18 ≤ size ∧ (size : Int) ≤ count := by
  have hhigh : count ≤ 65535 := h.2
  simp only [List.forall_mem_cons, List.not_mem_nil, false_implies, implies_true, and_true, Within]
  by_cases hshort : size < 18
  · -- the length of the memcpy is negative
    have hlength := sizeT_of_neg (n := (size : Int) - 18) (by omega) (by omega)
    omega
  · have hlength := sizeT_of_nonneg (n := (size : Int) - 18) (by omega) (by omega)
    omega

private theorem within_left_iff {n : Int} (h : InRange n) (size : Nat) :
    Within size (size - n, sizeT n) ↔ n ≤ size := by
  have hhigh : n ≤ 65535 := h.2
  have hlength := sizeT_of_nonneg h.1 (by omega)
  simp only [Within, hlength]
  omega

private theorem inRange_add_iff {n : Int} (h : InRange n) {r : RecvResult} (hr : r.Respects (bufferLen - n)) :
    InRange (n + r.value) ↔ (r = .again → n ≠ 0) := by
  obtain ⟨hlow, hhigh⟩ := h
  have hvalue := hr.value_le (by omega) (by simp only [bufferLen]; omega)
  rcases r.value_cases with ⟨rfl, hminus⟩ | ⟨hne, hsome⟩
  · simp only [InRange, hminus, forall_const]
    omega
  · simp only [InRange, hne, false_implies, iff_true]
    omega

private theorem inRange_sub_iff {n : Int} (h : InRange n) {r : SendResult} (hr : r.value ≤ sizeT n) :
    InRange (n - r.value) ↔ (r = .again → n ≠ bufferLen) := by
  obtain ⟨hlow, hhigh⟩ := h
  have hlength := sizeT_of_nonneg hlow (Int.lt_of_le_of_lt hhigh (by decide))
  rcases r.value_cases with ⟨rfl, hminus⟩ | ⟨hne, hsome⟩
  · simp only [InRange, hminus, forall_const]
    omega
  · simp only [InRange, hne, false_implies, iff_true]
    omega

/-- `recv` puts nothing outside the buffer when its range is inside. -/
private theorem store_outside (m : Around) {r : RecvResult} {n len k : Int} (hrespects : r.Respects len)
    (hwithin : Within bufferLen (n, sizeT len)) (hk : k < 0 ∨ bufferLen ≤ k) : m.store n r.bytes k = m k := by
  obtain ⟨hlow, hhigh⟩ := hwithin
  dsimp only at hlow hhigh
  have hlength : r.bytes.length ≤ sizeT len := hrespects
  rw [Around.store]
  by_cases hbefore : n ≤ k
  · have hbehind : r.bytes.length ≤ (k - n).toNat := by omega
    rw [if_pos hbefore, List.getElem?_eq_none hbehind, Option.getD_none]
  · exact if_neg hbefore

namespace Server

variable {ι : Type} [DecidableEq ι]

/-- What can happen next when clients are not known to behave: any result of `recv` that respects the
length of the call. -/
def Possible (st : Server ι) : Action ι → Prop
  | .write _ _ | .finish _ => True
  | .ready i r => st.phase = .select ∧ (st.conn i).isOpen = true ∧ r.Respects bufferLen
  | .readHead i r => st.phase = .head i ∧ (st.conn i).node.count < 2 ∧
      r.Respects (bufferLen - (st.conn i).node.count)
  | .headDone i => st.phase = .head i ∧ ¬ (st.conn i).node.count < 2
  | .readBody i r => st.phase = .body i ∧ ((st.conn i).node.size.toNat : Int) ≠ st.count ∧
      r.Respects (bufferLen - st.count)
  | .bodyDone i => st.phase = .body i ∧ ((st.conn i).node.size.toNat : Int) = st.count
  | .answer i r => st.phase = .answer i ∧ (st.conn i).node.count ≠ 0 ∧
      r.value ≤ sizeT (st.conn i).node.count
  | .answered i => st.phase = .answer i ∧ (st.conn i).node.count = 0

instance (st : Server ι) : (a : Action ι) → Decidable (st.Possible a)
  | .write _ _ | .finish _ => isTrue trivial
  | .ready _ _ => inferInstanceAs (Decidable (_ ∧ _ ∧ _))
  | .readHead _ _ => inferInstanceAs (Decidable (_ ∧ _ ∧ _))
  | .headDone _ => inferInstanceAs (Decidable (_ ∧ _))
  | .readBody _ _ => inferInstanceAs (Decidable (_ ∧ _ ∧ _))
  | .bodyDone _ => inferInstanceAs (Decidable (_ ∧ _))
  | .answer _ _ => inferInstanceAs (Decidable (_ ∧ _ ∧ _))
  | .answered _ => inferInstanceAs (Decidable (_ ∧ _))

/-- The offset in `receivebuffer` and the length that `recv` is called with. -/
def recvCalls (st : Server ι) : Action ι → List (Int × Nat)
  | .ready i _ => [((st.conn i).node.count, sizeT bufferLen)]
  | .readHead i _ => [((st.conn i).node.count, sizeT (bufferLen - (st.conn i).node.count))]
  | .readBody _ _ => [(st.count, sizeT (bufferLen - st.count))]
  | _ => []

/-- What is read of `receivebuffer`: the three fields of the header and the `memcpy` of the rest, and
what `send` is given. -/
def reads (st : Server ι) : Action ι → List (Int × Nat)
  | .headDone i => [(0, 2), (2, 8), (10, 8), (18, sizeT ((st.conn i).node.messageSize.toNat - 18))]
  | .answer i _ => [((st.conn i).node.size.toNat - (st.conn i).node.count, sizeT (st.conn i).node.count)]
  | _ => []

/-- How many bytes of the message have been received; while it is sent back, `current->count` is what
is left of it. -/
def received (st : Server ι) : Action ι → Int
  | .answer i _ => (st.conn i).node.size.toNat
  | a => (st.conn a.client).node.count

def CountsInRange (st : Server ι) : Prop := ∀ i, InRange (st.conn i).node.count

/-- An action with its calls of `recv` in the 65535 bytes of the buffer, its reads in the bytes received,
and every count in range after it. -/
structure InBounds (st : Server ι) (a : Action ι) : Prop where
  recv : ∀ call ∈ st.recvCalls a, Within bufferLen call
  reads : ∀ read ∈ st.reads a, Within (st.received a) read
  counts : (st.next a).CountsInRange

/-- The call of `recv` after `select` finds an empty buffer and does not fail, nor does one in the loop
for the size field that finds it empty; the size field is read from a whole message and covers its header;
the count of `main` is a place in the buffer where it is used as one; and `send` has not failed before. -/
def Orderly (st : Server ι) : Action ι → Prop
  | .ready i r => (st.conn i).node.count = 0 ∧ r ≠ .again
  | .readHead i r => r = .again → (st.conn i).node.count ≠ 0
  | .headDone i => 18 ≤ (st.conn i).node.messageSize.toNat ∧
      ((st.conn i).node.messageSize.toNat : Int) ≤ (st.conn i).node.count
  | .readBody _ _ => InRange st.count
  | .answer i r => (st.conn i).node.count ≤ (st.conn i).node.size.toNat ∧
      (r = .again → (st.conn i).node.count ≠ bufferLen)
  | _ => True

instance (st : Server ι) : (a : Action ι) → Decidable (st.Orderly a)
  | .ready _ _ => inferInstanceAs (Decidable (_ ∧ _))
  | .readHead _ _ => inferInstanceAs (Decidable (_ → _))
  | .headDone _ => inferInstanceAs (Decidable (_ ∧ _))
  | .readBody _ _ => inferInstanceAs (Decidable (_ ∧ _))
  | .answer _ _ => inferInstanceAs (Decidable (_ ∧ _))
  | .write _ _ | .finish _ | .bodyDone _ | .answered _ => isTrue trivial

def countAfter (st : Server ι) : Action ι → Int
  | .ready i r | .readHead i r => (st.conn i).node.count + r.value
  | .answer i r => (st.conn i).node.count - r.value
  | a => (st.conn a.client).node.count

variable {st : Server ι} {a : Action ι} {i : ι} {r : RecvResult}

private theorem next_conn (st : Server ι) (a : Action ι) :
    ∃ c, (st.next a).conn = Function.update st.conn a.client c ∧ c.node.count = st.countAfter a := by
  cases a with
  | write i m => exact ⟨_, rfl, rfl⟩
  | finish i => exact ⟨_, rfl, rfl⟩
  | ready i r =>
    simp only [next]
    split
    · exact ⟨_, rfl, rfl⟩
    · exact ⟨_, rfl, rfl⟩
  | readHead i r => exact ⟨_, rfl, rfl⟩
  | headDone i =>
    simp only [next]
    split
    · exact ⟨st.conn i, (Function.update_eq_self i st.conn).symm, rfl⟩
    · exact ⟨_, rfl, rfl⟩
  | readBody i r => exact ⟨_, rfl, rfl⟩
  | bodyDone i => exact ⟨st.conn i, (Function.update_eq_self i st.conn).symm, rfl⟩
  | answer i r => exact ⟨_, rfl, rfl⟩
  | answered i => exact ⟨st.conn i, (Function.update_eq_self i st.conn).symm, rfl⟩

private theorem CountsInRange.next_iff (h : st.CountsInRange) (a : Action ι) :
    (st.next a).CountsInRange ↔ InRange (st.countAfter a) := by
  obtain ⟨c, hconn, hcount⟩ := next_conn st a
  rw [CountsInRange, hconn, ← hcount]
  constructor
  · intro hall
    have hclient := hall a.client
    rwa [Function.update_self] at hclient
  · intro hc
    exact (Function.forall_update_iff st.conn fun _ c => InRange c.node.count).mpr ⟨hc, fun j _ => h j⟩

private theorem CountsInRange.inBounds_iff (h : st.CountsInRange) (a : Action ι) : st.InBounds a ↔
    (∀ call ∈ st.recvCalls a, Within bufferLen call) ∧ (∀ read ∈ st.reads a, Within (st.received a) read) ∧
      InRange (st.countAfter a) := by
  rw [← h.next_iff a]
  constructor
  · exact fun hin => ⟨hin.recv, hin.reads, hin.counts⟩
  · rintro ⟨hrecv, hreads, hcounts⟩
    exact ⟨hrecv, hreads, hcounts⟩

theorem CountsInRange.ready (h : st.CountsInRange) (hpossible : st.Possible (.ready i r)) :
    st.InBounds (.ready i r) ↔ st.Orderly (.ready i r) := by
  have hcount := h i
  have hcall : (∀ call ∈ st.recvCalls (.ready i r), Within bufferLen call) ↔ (st.conn i).node.count = 0 := by
    rw [recvCalls, List.forall_mem_singleton, within_whole_iff hcount]
  have hreads : ∀ read ∈ st.reads (.ready i r), Within (st.received (.ready i r)) read := by simp [reads]
  rw [h.inBounds_iff, hcall, and_iff_right hreads]
  apply and_congr_right
  intro hempty
  have hrespects : r.Respects (bufferLen - (st.conn i).node.count) := by
    rw [hempty, Int.sub_zero]
    exact hpossible.2.2
  apply (inRange_add_iff hcount hrespects).trans
  simp [hempty]

theorem CountsInRange.readHead (h : st.CountsInRange) (hpossible : st.Possible (.readHead i r)) :
    st.InBounds (.readHead i r) ↔ st.Orderly (.readHead i r) := by
  have hcount := h i
  have hcall : ∀ call ∈ st.recvCalls (.readHead i r), Within bufferLen call := by
    rw [recvCalls, List.forall_mem_singleton]
    exact (within_rest_iff _).mpr hcount
  have hreads : ∀ read ∈ st.reads (.readHead i r), Within (st.received (.readHead i r)) read := by simp [reads]
  rw [h.inBounds_iff, and_iff_right hcall, and_iff_right hreads]
  exact inRange_add_iff hcount hpossible.2.2

theorem CountsInRange.headDone (h : st.CountsInRange) :
    st.InBounds (.headDone i) ↔ st.Orderly (.headDone i) := by
  have hcount := h i
  have hcall : ∀ call ∈ st.recvCalls (.headDone i), Within bufferLen call := by simp [recvCalls]
  rw [h.inBounds_iff, and_iff_right hcall, and_iff_left
    (show InRange (st.countAfter (.headDone i)) from hcount)]
  exact within_message_iff hcount (st.conn i).node.messageSize.toNat_lt

theorem CountsInRange.readBody (h : st.CountsInRange) :
    st.InBounds (.readBody i r) ↔ st.Orderly (.readBody i r) := by
  have hreads : ∀ read ∈ st.reads (.readBody i r), Within (st.received (.readBody i r)) read := by simp [reads]
  rw [h.inBounds_iff, and_iff_right hreads, and_iff_left
    (show InRange (st.countAfter (.readBody i r)) from h i), recvCalls, List.forall_mem_singleton]
  exact within_rest_iff st.count

theorem CountsInRange.answer (h : st.CountsInRange) {r : SendResult} (hpossible : st.Possible (.answer i r)) :
    st.InBounds (.answer i r) ↔ st.Orderly (.answer i r) := by
  have hcount := h i
  have hcall : ∀ call ∈ st.recvCalls (.answer i r), Within bufferLen call := by simp [recvCalls]
  rw [h.inBounds_iff, and_iff_right hcall, reads, List.forall_mem_singleton]
  exact and_congr (within_left_iff hcount _) (inRange_sub_iff hcount hpossible.2.2)

private theorem CountsInRange.inBounds_iff_orderly (h : st.CountsInRange) (hpossible : st.Possible a) :
    st.InBounds a ↔ st.Orderly a := by
  have hidle (hcalls : st.recvCalls a = []) (hreads : st.reads a = [])
      (hcount : st.countAfter a = (st.conn a.client).node.count) : st.InBounds a := by
    rw [h.inBounds_iff, hcalls, hreads, hcount]
    exact ⟨by simp, by simp, h a.client⟩
  cases a with
  | write i m => exact iff_of_true (hidle rfl rfl rfl) trivial
  | finish i => exact iff_of_true (hidle rfl rfl rfl) trivial
  | ready i r => exact h.ready hpossible
  | readHead i r => exact h.readHead hpossible
  | headDone i => exact h.headDone
  | readBody i r => exact h.readBody
  | bodyDone i => exact iff_of_true (hidle rfl rfl rfl) trivial
  | answer i r => exact h.answer hpossible
  | answered i => exact iff_of_true (hidle rfl rfl rfl) trivial

private theorem next_outside (hpossible : st.Possible a) (hin : st.InBounds a) {k : Int}
    (hk : k < 0 ∨ bufferLen ≤ k)
    (j : ι) : ((st.next a).conn j).node.receivebuffer k = (st.conn j).node.receivebuffer k := by
  have hclient {c : Conn} (hconn : (st.next a).conn = Function.update st.conn a.client c)
      (hbyte : c.node.receivebuffer k = (st.conn a.client).node.receivebuffer k) :
      ((st.next a).conn j).node.receivebuffer k = (st.conn j).node.receivebuffer k := by
    rw [hconn]
    by_cases hj : j = a.client
    · rw [hj, Function.update_self, hbyte]
    · rw [Function.update_of_ne hj]
  cases a with
  | write i m => exact hclient rfl rfl
  | finish i => exact hclient rfl rfl
  | ready i r =>
    have hbyte := store_outside (st.conn i).node.receivebuffer hpossible.2.2 (hin.recv _ List.mem_cons_self) hk
    by_cases hclosed : ((st.conn i).received r).node.count ≤ 0
    · exact hclient (by simp only [next, if_pos hclosed]; rfl) hbyte
    · exact hclient (by simp only [next, if_neg hclosed]; rfl) hbyte
  | readHead i r =>
    exact hclient rfl
      (store_outside (st.conn i).node.receivebuffer hpossible.2.2 (hin.recv _ List.mem_cons_self) hk)
  | headDone i =>
    by_cases hshort : (st.conn i).node.messageSize.toNat < 18
    · rw [next, if_pos hshort]
    · have hconn : (st.next (.headDone i)).conn = Function.update st.conn i
          { st.conn i with node := { (st.conn i).node with size := (st.conn i).node.messageSize } } := by
        rw [next, if_neg hshort]
        rfl
      exact hclient hconn rfl
  | readBody i r =>
    exact hclient rfl
      (store_outside (st.conn i).node.receivebuffer hpossible.2.2 (hin.recv _ List.mem_cons_self) hk)
  | bodyDone i => rfl
  | answer i r => exact hclient rfl rfl
  | answered i => rfl

/-- Whatever clients do and the calls return, every access of a run is in bounds and every count in range if
and only if every action is orderly. Then the memory around the buffers is untouched. -/
theorem buffer_inBounds_iff (hcounts : st.CountsInRange) {actions : List (Action ι)}
    (hrun : Along next Possible st actions) :
    (Along next InBounds st actions ↔ Along next Orderly st actions) ∧
      (Along next InBounds st actions → ∀ j k, k < 0 ∨ bufferLen ≤ k →
        ((actions.foldl next st).conn j).node.receivebuffer k = (st.conn j).node.receivebuffer k) := by
  constructor
  · apply along_iff CountsInRange _ _ hcounts hrun
    · intro st a h hpossible
      exact h.inBounds_iff_orderly hpossible
    · intro st a _ _ hin
      exact hin.counts
  · intro hin j k hk
    apply along_same (fun st => (st.conn j).node.receivebuffer k) _ hrun hin
    intro st a hpossible hin
    exact next_outside hpossible hin hk j

private theorem quiet_counts (ι : Type) (count : Int) : (quiet ι count).CountsInRange := by
  intro i
  exact (by decide : InRange 0)

def onePiece : List (Action Unit) :=
  [.ready () (.data ping), .headDone (), .bodyDone (), .answer () (.sent 18), .answered ()]

theorem onePiece_inBounds : Along next InBounds (quiet Unit 18) onePiece := by
  have hrun : Along next Possible (quiet Unit 18) onePiece := by decide +kernel
  apply (buffer_inBounds_iff (quiet_counts Unit 18) hrun).1.mpr
  decide +kernel

/-- The first ten bytes of a message come alone. -/
theorem twoPieces_outOfBounds :
    let actions : List (Action Unit) := [.ready () (.data (ping.take 10)), .headDone ()]
    (quiet Unit 18).CountsInRange ∧ Along next Possible (quiet Unit 18) actions ∧
      ¬ Along next InBounds (quiet Unit 18) actions := by
  refine ⟨quiet_counts Unit 18, by decide +kernel, ?_⟩
  intro hin
  have hread := hin.2.1.reads (10, 8) (by simp [reads])
  exact absurd hread.2 (by decide)

end Server

end Comp556.Ping
