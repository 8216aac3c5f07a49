import Comp556.Foundation.Run
import Comp556.Ping.Server
import Mathlib.Algebra.Order.BigOperators.Group.Finset
import Mathlib.Data.Fintype.Basic
import Mathlib.Data.Prod.Lex

/-!
# What the ping server sends back

The echo of a client is its messages as long as `count`, which all clients share, is never below the
size of a message that has been read, and no byte arrives while it is counted down.
-/

namespace Comp556.Ping

def Around.Holds (m : Around) (l : List UInt8) : Prop := ∀ (k : Nat) (b : UInt8), l[k]? = some b → m k = b

variable {m : Around} {l : List UInt8}

@[simp] theorem Around.store_nil (m : Around) (offset : Int) : m.store offset [] = m := by
  funext i
  simp [Around.store]

theorem Around.holds_nil (m : Around) : m.Holds [] := by
  intro k b h
  simp at h

theorem Around.Holds.store (h : m.Holds l) (bytes : List UInt8) :
    (m.store l.length bytes).Holds (l ++ bytes) := by
  intro k b hb
  rw [Around.store]
  by_cases hk : k < l.length
  · rw [List.getElem?_append_left hk] at hb
    rw [if_neg (by omega)]
    exact h k b hb
  · rw [List.getElem?_append_right (by omega)] at hb
    have hindex : ((k : Int) - l.length).toNat = k - l.length := by omega
    rw [if_pos (by omega), hindex, hb, Option.getD_some]

theorem Around.Holds.load (h : m.Holds l) {done rest : List UInt8} (hl : l = done ++ rest) {n : Nat}
    (hn : n ≤ rest.length) {offset : Int} (hoffset : offset = done.length) :
    m.load offset n = rest.take n := by
  apply List.ext_getElem
  · simp [Around.load, hn]
  · intro k hk _
    have hkn : k < n := by simpa [Around.load] using hk
    have hget : l[done.length + k]? = some rest[k] := by
      rw [hl, List.getElem?_append_right (by omega), Nat.add_sub_cancel_left]
      exact List.getElem?_eq_getElem _
    simp only [Around.load, List.getElem_map, List.getElem_range, List.getElem_take, hoffset]
    exact_mod_cast h _ _ hget

theorem Around.Holds.getD (h : m.Holds l) {k : Nat} (hk : k < l.length) : m k = l.getD k 0 := by
  rw [List.getD_eq_getElem?_getD, List.getElem?_eq_getElem hk, Option.getD_some]
  exact h k _ (List.getElem?_eq_getElem hk)

/-- Everything has been answered. -/
structure Waiting (c : Conn) : Prop where
  echo : c.echo = c.messages.flatten
  unread : c.unread = []
  count : c.node.count = 0

/-- The first part of the last message has been received; the messages before it are answered. -/
structure Collecting (c : Conn) (got : List UInt8) : Prop where
  last : ∃ done m, c.messages = done ++ [m] ∧ WellFormed m ∧ m = got ++ c.unread ∧ c.echo = done.flatten
  count : c.node.count = got.length
  buffer : c.node.receivebuffer.Holds got

/-- The last message has been received, and the server has sent all but `rest` of it. -/
structure Answering (c : Conn) (rest : List UInt8) : Prop where
  last : ∃ done m sent, c.messages = done ++ [m] ∧ m = sent ++ rest ∧ c.echo = done.flatten ++ sent ∧
    c.node.size.toNat = m.length ∧ c.node.receivebuffer.Holds m
  unread : c.unread = []
  count : c.node.count = rest.length
  rest : rest ≠ []

/-- Nothing of a message has been lost: what is missing is still to come. -/
def Settled (c : Conn) : Prop := Waiting c ∨ ∃ got, Collecting c got ∧ c.unread ≠ []

variable {c : Conn} {got rest : List UInt8}

private theorem Waiting.faithful (h : Waiting c) : c.echo <+: c.messages.flatten := h.echo ▸ List.prefix_rfl

private theorem Collecting.faithful (h : Collecting c got) : c.echo <+: c.messages.flatten := by
  obtain ⟨done, m, hmessages, -, -, hecho⟩ := h.last
  rw [hmessages, hecho, List.flatten_append]
  exact List.prefix_append _ _

private theorem Answering.faithful (h : Answering c rest) : c.echo <+: c.messages.flatten := by
  obtain ⟨done, m, sent, hmessages, hm, hecho, -⟩ := h.last
  rw [hmessages, hecho, List.flatten_append, List.flatten_singleton, hm, ← List.append_assoc]
  exact List.prefix_append _ _

private theorem Collecting.not_answered (h : Collecting c got) : ¬ c.answered := by
  obtain ⟨done, m, hmessages, hm, -, hecho⟩ := h.last
  have hlong := hm.1
  simp only [Conn.answered, hmessages, hecho, List.flatten_append, List.flatten_singleton,
    List.length_append]
  omega

private theorem Answering.not_answered (h : Answering c rest) : ¬ c.answered := by
  obtain ⟨done, m, sent, hmessages, hm, hecho, -⟩ := h.last
  have hpos := List.length_pos_iff.mpr h.rest
  simp only [Conn.answered, hmessages, hecho, hm, List.flatten_append, List.flatten_singleton,
    List.length_append]
  omega

theorem Waiting.write (h : Waiting c) {m : List UInt8} (hm : WellFormed m) :
    Collecting { c with messages := c.messages ++ [m], unread := c.unread ++ m } [] where
  last := ⟨c.messages, m, rfl, hm, by simp [h.unread], h.echo⟩
  count := h.count
  buffer := c.node.receivebuffer.holds_nil

theorem Collecting.received (h : Collecting c got) {bytes : List UInt8} (hbytes : bytes <+: c.unread) :
    Collecting (c.received (.data bytes)) (got ++ bytes) where
  last := by
    obtain ⟨done, m, hmessages, hm, hsplit, hecho⟩ := h.last
    obtain ⟨rest, hrest⟩ := hbytes
    refine ⟨done, m, hmessages, hm, ?_, hecho⟩
    rw [hsplit, List.append_assoc, Conn.received, ← hrest, RecvResult.bytes, List.drop_left]
  count := by
    simp only [Conn.received, Node.recv, RecvResult.value, h.count, List.length_append]
    push_cast
    rfl
  buffer := by
    simp only [Conn.received, Node.recv, RecvResult.bytes, h.count]
    exact h.buffer.store bytes

theorem Collecting.messageSize (h : Collecting c got) (hcount : ¬ c.node.count < 2) :
    c.node.messageSize.toNat = got.length + c.unread.length := by
  obtain ⟨done, m, -, hm, hsplit, -⟩ := h.last
  have hlength : 2 ≤ got.length := by
    have := h.count
    omega
  have hfirst (k : Nat) (hk : k < 2) : c.node.receivebuffer k = m.getD k 0 := by
    rw [h.buffer.getD (by omega), hsplit, List.getD_eq_getElem?_getD, List.getD_eq_getElem?_getD,
      List.getElem?_append_left (by omega)]
  have hsize := hm.2.2
  rw [← List.length_append, ← hsplit, ← hsize, Node.messageSize]
  congr 2
  · exact_mod_cast hfirst 0 (by omega)
  · exact_mod_cast hfirst 1 (by omega)

theorem Collecting.complete (h : Collecting c got) (hsize : c.node.size.toNat = got.length + c.unread.length)
    (hcount : c.node.count = c.node.size.toNat) : Answering c got := by
  obtain ⟨done, m, hmessages, hm, hsplit, hecho⟩ := h.last
  have hnone : c.unread = [] := by
    apply List.length_eq_zero_iff.mp
    have := h.count
    omega
  rw [hnone, List.append_nil] at hsplit
  have hlong := hm.1
  refine ⟨⟨done, m, [], hmessages, hsplit, by rw [hecho, List.append_nil], ?_, ?_⟩, hnone, h.count, ?_⟩
  · rw [hsize, hnone, hsplit, List.length_nil, Nat.add_zero]
  · exact hsplit ▸ h.buffer
  · intro heq
    subst heq
    simp [hsplit] at hlong

private theorem Collecting.incomplete (h : Collecting c got)
    (hsize : c.node.size.toNat = got.length + c.unread.length)
    (hcount : c.node.count ≠ c.node.size.toNat) : c.unread ≠ [] := by
  intro hnone
  rw [hnone, List.length_nil, Nat.add_zero] at hsize
  exact hcount (by rw [h.count, hsize])

/-- `send` takes a first part of what is left. -/
theorem Answering.sent (h : Answering c rest) {n : Nat} (hn : (n : Int) ≤ c.node.count)
    {c' : Conn} (hc' : c' = { c with
      node := { c.node with count := c.node.count - n }
      echo := c.echo ++ c.node.outgoing (.sent n) }) :
    c'.node.count = 0 ∧ Waiting c' ∨ ∃ rest', Answering c' rest' := by
  obtain ⟨done, m, sent, hmessages, hm, hecho, hsize, hbuffer⟩ := h.last
  have hcount := h.count
  have hle : n ≤ rest.length := by omega
  have hlength := congrArg List.length hm
  rw [List.length_append] at hlength
  have hout : c.node.outgoing (.sent n) = rest.take n :=
    hbuffer.load hm hle (by omega)
  rw [hout, hecho, List.append_assoc] at hc'
  have hleft : c'.node.count = (rest.drop n).length := by
    simp only [hc', hcount, List.length_drop]
    omega
  by_cases hnone : rest.drop n = []
  · have hall : rest.take n = rest := List.take_of_length_le (List.drop_eq_nil_iff.mp hnone)
    rw [hnone] at hleft
    refine .inl ⟨hleft, ⟨?_, by rw [hc']; exact h.unread, hleft⟩⟩
    simp [hc', hmessages, hm, hall]
  · refine .inr ⟨rest.drop n, ⟨done, m, sent ++ rest.take n, ?_, ?_, ?_, ?_, ?_⟩, ?_, hleft, hnone⟩
    · rw [hc', hmessages]
    · rw [hm, List.append_assoc, List.take_append_drop]
    · rw [hc']
    · rw [hc']
      exact hsize
    · rw [hc']
      exact hbuffer
    · rw [hc']
      exact h.unread

def Phase.client {ι : Type} : Phase ι → Option ι
  | .select => none
  | .head i => some i
  | .body i => some i
  | .answer i => some i
  | .crashed => none

variable {ι : Type} [DecidableEq ι]

/-- The server is at no message of another client. -/
def Phase.OnlyAt {ι : Type} (phase : Phase ι) (i : ι) : Prop := ∀ j, phase.client = some j → j = i

private theorem Phase.onlyAt_of_client {ι : Type} {phase : Phase ι} {i : ι} (h : phase.client = some i) :
    phase.OnlyAt i := fun _ hj => Option.some.inj (hj.symm.trans h)

private theorem Phase.onlyAt_of_select {ι : Type} {phase : Phase ι} (h : phase = .select) (i : ι) :
    phase.OnlyAt i := by
  intro j hj
  rw [h] at hj
  cases hj

/-- What is known of client `i` where the server stands. -/
def Fits (count : Int) (phase : Phase ι) (i : ι) (c : Conn) : Prop :=
  if phase.client = some i then
    match phase with
    | .select => False
    | .head _ => ∃ got, Collecting c got
    | .body _ => c.node.size.toNat ≤ count ∧
        ∃ got, Collecting c got ∧ c.node.size.toNat = got.length + c.unread.length
    | .answer _ => (∃ rest, Answering c rest) ∨ c.node.count = 0 ∧ Settled c
    | .crashed => False
  else Settled c

section Fits

variable {count : Int} {phase : Phase ι} {i : ι}

private theorem fits_of_other (h : phase.client ≠ some i) : Fits count phase i c ↔ Settled c := by
  simp [Fits, h]

private theorem fits_select : Fits count .select i c ↔ Settled c := fits_of_other (by simp [Phase.client])

private theorem fits_head : Fits count (.head i) i c ↔ ∃ got, Collecting c got := by
  simp [Fits, Phase.client]

private theorem fits_body : Fits count (.body i) i c ↔ c.node.size.toNat ≤ count ∧
    ∃ got, Collecting c got ∧ c.node.size.toNat = got.length + c.unread.length := by
  simp [Fits, Phase.client]

private theorem fits_answer : Fits count (.answer i) i c ↔
    (∃ rest, Answering c rest) ∨ c.node.count = 0 ∧ Settled c := by
  simp [Fits, Phase.client]

private theorem Fits.faithful (h : Fits count phase i c) : c.echo <+: c.messages.flatten := by
  have hsettled : Settled c → c.echo <+: c.messages.flatten := by
    rintro (h | ⟨got, h, -⟩)
    · exact h.faithful
    · exact h.faithful
  unfold Fits at h
  split at h
  case isTrue =>
    cases phase with
    | select | crashed => exact h.elim
    | head _ =>
      obtain ⟨got, h⟩ := h
      exact h.faithful
    | body _ =>
      obtain ⟨-, got, h, -⟩ := h
      exact h.faithful
    | answer _ =>
      rcases h with ⟨rest, h⟩ | ⟨-, h⟩
      · exact h.faithful
      · exact hsettled h
  case isFalse => exact hsettled h

theorem Fits.answered (h : Fits count phase i c) (ha : c.answered) :
    Waiting c ∧ ∀ c', c'.node.count = 0 → Settled c' → Fits count phase i c' := by
  have hsettled : Settled c → Waiting c := by
    rintro (h | ⟨got, h, -⟩)
    · exact h
    · exact absurd ha h.not_answered
  by_cases hat : phase.client = some i
  · cases phase with
    | select | crashed => cases hat
    | head j =>
      obtain rfl := Option.some.inj hat
      obtain ⟨got, h⟩ := fits_head.mp h
      exact absurd ha h.not_answered
    | body j =>
      obtain rfl := Option.some.inj hat
      obtain ⟨-, got, h, -⟩ := fits_body.mp h
      exact absurd ha h.not_answered
    | answer j =>
      obtain rfl := Option.some.inj hat
      rcases fits_answer.mp h with ⟨rest, h⟩ | ⟨-, h⟩
      · exact absurd ha h.not_answered
      · exact ⟨hsettled h, fun c' hc' hs => fits_answer.mpr (.inr ⟨hc', hs⟩)⟩
  · exact ⟨hsettled ((fits_of_other hat).mp h), fun c' _ hs => (fits_of_other hat).mpr hs⟩

end Fits

namespace Server

/-- What a run may not meet: a message larger than `count` says, nothing to read in the loop for the
size field, something to read while `count` is counted down, or no room to send. -/
def Smooth (st : Server ι) : Action ι → Prop
  | .readHead _ r => r.bytes ≠ []
  | .headDone i => (st.conn i).node.messageSize.toNat ≤ st.count
  | .readBody _ r => r = .again
  | .answer _ r => r ≠ .again
  | _ => True

instance (st : Server ι) : (a : Action ι) → Decidable (st.Smooth a)
  | .readHead _ r => inferInstanceAs (Decidable (r.bytes ≠ []))
  | .headDone _ => inferInstanceAs (Decidable (_ ≤ _))
  | .readBody _ r => inferInstanceAs (Decidable (r = .again))
  | .answer _ r => inferInstanceAs (Decidable (r ≠ .again))
  | .write _ _ | .finish _ | .ready _ _ | .bodyDone _ | .answered _ => isTrue trivial

/-- What holds between any two actions of such a run. -/
structure Inv (st : Server ι) : Prop where
  running : st.phase ≠ .crashed
  finished : ∀ i, (st.conn i).finished = true → Waiting (st.conn i)
  closed : ∀ i, (st.conn i).isOpen = false → (st.conn i).finished = true
  fits : ∀ i, Fits st.count st.phase i (st.conn i)

variable {st st' : Server ι} {i : ι}

theorem Inv.start (h : Start st) : Inv st where
  running := by simp [h.phase]
  finished i hfin := by simp [h.finished] at hfin
  closed i hclosed := by simp [h.isOpen] at hclosed
  fits i := by
    rw [h.phase, fits_select]
    exact .inl ⟨by simp [h.echo, h.messages], h.unread i, h.count i⟩

/-- The server goes on with client `i` and touches no other. -/
theorem Inv.replace (h : Inv st) {c' : Conn} (hconn : st'.conn = Function.update st.conn i c')
    (hrunning : st'.phase ≠ .crashed) (hbefore : st.phase.OnlyAt i) (hafter : st'.phase.OnlyAt i)
    (hfinished : c'.finished = true → Waiting c') (hclosed : c'.isOpen = false → c'.finished = true)
    (hfits : Fits st'.count st'.phase i c') : Inv st' := by
  have hall (P : ι → Conn → Prop) (hi : P i c') (hj : ∀ j, j ≠ i → P j (st.conn j)) :
      ∀ j, P j (st'.conn j) :=
    hconn ▸ (Function.forall_update_iff st.conn P).mpr ⟨hi, hj⟩
  constructor
  case running => exact hrunning
  case finished => exact hall (fun _ c => c.finished = true → Waiting c) hfinished fun j _ => h.finished j
  case closed => exact hall (fun _ c => c.isOpen = false → c.finished = true) hclosed fun j _ => h.closed j
  case fits =>
    apply hall (fun j c => Fits st'.count st'.phase j c) hfits
    intro j hj
    have hold := (fits_of_other fun hat => hj (hbefore j hat)).mp (h.fits j)
    exact (fits_of_other fun hat => hj (hafter j hat)).mpr hold

theorem Inv.client (h : Inv st) (ha : (st.conn i).answered) {c' : Conn} (hsettled : Settled c')
    (hcount : c'.node.count = 0) (hfinished : c'.finished = true → Waiting c')
    (hclosed : c'.isOpen = false → c'.finished = true) : Inv (st.setConn i c') := by
  have hall (P : ι → Conn → Prop) (hi : P i c') (hj : ∀ j, P j (st.conn j)) :
      ∀ j, P j ((st.setConn i c').conn j) :=
    (Function.forall_update_iff st.conn P).mpr ⟨hi, fun j _ => hj j⟩
  constructor
  case running => exact h.running
  case finished => exact hall (fun _ c => c.finished = true → Waiting c) hfinished h.finished
  case closed => exact hall (fun _ c => c.isOpen = false → c.finished = true) hclosed h.closed
  case fits =>
    have hfits := ((h.fits i).answered ha).2 c' hcount hsettled
    exact hall (fun j c => Fits st.count st.phase j c) hfits h.fits

theorem Inv.write (h : Inv st) {m : List UInt8} (hen : st.Enabled (.write i m)) :
    Inv (st.next (.write i m)) := by
  obtain ⟨hm, hopen, ha⟩ := hen
  have hwaiting := ((h.fits i).answered ha).1
  refine h.client ha (.inr ⟨[], hwaiting.write hm, ?_⟩) hwaiting.count ?_ ?_
  · have hlong := hm.1
    intro hnone
    rw [List.append_eq_nil_iff.mp hnone |>.2] at hlong
    simp at hlong
  · intro hfin
    exact absurd (hopen.symm.trans hfin) (by simp)
  · intro hclosed
    exact h.closed i hclosed

theorem Inv.finish (h : Inv st) (hen : st.Enabled (.finish i)) : Inv (st.next (.finish i)) := by
  obtain ⟨-, ha⟩ := hen
  obtain ⟨hecho, hunread, hcount⟩ := ((h.fits i).answered ha).1
  exact h.client ha (.inl ⟨hecho, hunread, hcount⟩) hcount (fun _ => ⟨hecho, hunread, hcount⟩) fun _ => rfl

private theorem Inv.collecting_open (h : Inv st) {got : List UInt8} (hgot : Collecting (st.conn i) got) :
    (st.conn i).finished = false ∧ (st.conn i).isOpen = true := by
  have hfin : (st.conn i).finished = false := Bool.eq_false_iff.mpr fun hfin => by
    apply hgot.not_answered
    rw [Conn.answered, (h.finished i hfin).echo]
  refine ⟨hfin, ?_⟩
  cases hopen : (st.conn i).isOpen with
  | true => rfl
  | false => exact absurd (hfin.symm.trans (h.closed i hopen)) (by simp)

private theorem Inv.replace_collecting (h : Inv st) {got : List UInt8} (hgot : Collecting (st.conn i) got)
    {c' : Conn}
    (hconn : st'.conn = Function.update st.conn i c') (hfinished : c'.finished = (st.conn i).finished)
    (hopen : c'.isOpen = (st.conn i).isOpen) (hrunning : st'.phase ≠ .crashed) (hbefore : st.phase.OnlyAt i)
    (hafter : st'.phase.OnlyAt i)
    (hfits : Fits st'.count st'.phase i c') : Inv st' := by
  obtain ⟨hunfinished, hisOpen⟩ := h.collecting_open hgot
  apply h.replace hconn hrunning hbefore hafter ?_ ?_ hfits
  · intro hfin
    rw [hfinished, hunfinished] at hfin
    cases hfin
  · intro hclosed
    rw [hopen, hisOpen] at hclosed
    cases hclosed

theorem Inv.ready (h : Inv st) {r : RecvResult} (hen : st.Enabled (.ready i r)) :
    Inv (st.next (.ready i r)) := by
  obtain ⟨hphase, hopen, hdelivers, hr⟩ := hen
  have hnone := Phase.onlyAt_of_select hphase i
  have hsettled := fits_select.mp (hphase ▸ h.fits i)
  cases r with
  | again => exact absurd rfl hr
  | closed =>
    obtain ⟨hfin, -⟩ := hdelivers.resolve_right (by decide)
    have hwaiting := h.finished i hfin
    have hwaiting' : Waiting ((st.conn i).received .closed) := by
      refine ⟨hwaiting.echo, ?_, ?_⟩
      · simp [Conn.received, hwaiting.unread]
      · simp [Conn.received, Node.recv, RecvResult.value, hwaiting.count]
    have hnext : st.next (.ready i .closed) =
        st.setConn i { (st.conn i).received .closed with isOpen := false } :=
      if_pos (Int.le_of_eq hwaiting'.count)
    rw [hnext]
    refine h.replace rfl h.running hnone hnone (fun _ => ?_) (fun _ => hfin) ?_
    · exact ⟨hwaiting'.echo, hwaiting'.unread, hwaiting'.count⟩
    · rw [setConn, hphase, fits_select]
      exact .inl ⟨hwaiting'.echo, hwaiting'.unread, hwaiting'.count⟩
  | data bytes =>
    obtain ⟨hne, hbytes, -⟩ := hdelivers
    have hunread : (st.conn i).unread ≠ [] := fun hnil => hne (List.prefix_nil.mp (hnil ▸ hbytes))
    obtain ⟨got, hgot, -⟩ := hsettled.resolve_left fun hw => hunread hw.unread
    have hgot' := hgot.received hbytes
    have hpos : ¬ ((st.conn i).received (.data bytes)).node.count ≤ 0 := by
      have := List.length_pos_iff.mpr hne
      rw [hgot'.count, List.length_append]
      omega
    have hnext : st.next (.ready i (.data bytes)) =
        { st.setConn i ((st.conn i).received (.data bytes)) with phase := .head i } :=
      if_neg hpos
    rw [hnext]
    exact h.replace_collecting hgot rfl rfl rfl (by simp) hnone (Phase.onlyAt_of_client rfl)
      (fits_head.mpr ⟨_, hgot'⟩)

theorem Inv.readHead (h : Inv st) {r : RecvResult} (hen : st.Enabled (.readHead i r))
    (hsmooth : st.Smooth (.readHead i r)) : Inv (st.next (.readHead i r)) := by
  obtain ⟨hphase, -, hdelivers⟩ := hen
  have hat : st.phase.OnlyAt i := Phase.onlyAt_of_client (hphase ▸ rfl)
  obtain ⟨got, hgot⟩ := fits_head.mp (hphase ▸ h.fits i)
  cases r with
  | again => exact absurd rfl hsmooth
  | closed => exact absurd rfl hsmooth
  | data bytes =>
    refine h.replace_collecting hgot rfl rfl rfl h.running hat hat ?_
    exact (show st.phase = _ from hphase) ▸ fits_head.mpr ⟨_, hgot.received hdelivers.2.1⟩

theorem Inv.headDone (h : Inv st) (hen : st.Enabled (.headDone i)) (hsmooth : st.Smooth (.headDone i)) :
    Inv (st.next (.headDone i)) := by
  obtain ⟨hphase, hcount⟩ := hen
  have hat : st.phase.OnlyAt i := Phase.onlyAt_of_client (hphase ▸ rfl)
  obtain ⟨got, hgot⟩ := fits_head.mp (hphase ▸ h.fits i)
  have hsize := hgot.messageSize hcount
  have hlong : ¬ (st.conn i).node.messageSize.toNat < 18 := by
    obtain ⟨_, m, -, hm, hsplit, -⟩ := hgot.last
    have hlength := congrArg List.length hsplit
    rw [List.length_append] at hlength
    have := hm.1
    omega
  have hnext : st.next (.headDone i) =
      { st.setConn i { st.conn i with node := { (st.conn i).node with size := (st.conn i).node.messageSize }
        } with
        phase := .body i } := if_neg hlong
  rw [hnext]
  exact h.replace_collecting hgot rfl rfl rfl (by simp) hat (Phase.onlyAt_of_client rfl)
    (fits_body.mpr ⟨hsmooth, got, ⟨hgot.last, hgot.count, hgot.buffer⟩, hsize⟩)

theorem Inv.readBody (h : Inv st) {r : RecvResult} (hen : st.Enabled (.readBody i r))
    (hsmooth : st.Smooth (.readBody i r)) : Inv (st.next (.readBody i r)) := by
  obtain ⟨hphase, hne, -⟩ := hen
  obtain rfl : r = .again := hsmooth
  have hat : st.phase.OnlyAt i := Phase.onlyAt_of_client (hphase ▸ rfl)
  obtain ⟨hle, got, hgot, hsize⟩ := fits_body.mp (hphase ▸ h.fits i)
  have hless : ((st.conn i).node.size.toNat : Int) ≤ st.count + RecvResult.again.value := by
    simp only [RecvResult.value]
    omega
  refine h.replace_collecting hgot rfl rfl rfl h.running hat hat ?_
  refine (show st.phase = _ from hphase) ▸ fits_body.mpr ⟨hless, got, ⟨?_, hgot.count, ?_⟩, ?_⟩
  · simpa [RecvResult.bytes] using hgot.last
  · simpa [RecvResult.bytes] using hgot.buffer
  · simpa [RecvResult.bytes] using hsize

theorem Inv.bodyDone (h : Inv st) (hen : st.Enabled (.bodyDone i)) : Inv (st.next (.bodyDone i)) := by
  obtain ⟨hphase, -⟩ := hen
  have hat : st.phase.OnlyAt i := Phase.onlyAt_of_client (hphase ▸ rfl)
  obtain ⟨-, got, hgot, hsize⟩ := fits_body.mp (hphase ▸ h.fits i)
  refine h.replace (Function.update_eq_self i st.conn).symm ?_ hat ?_ (h.finished i) (h.closed i) ?_
  · simp only [next]
    split <;> simp
  · simp only [next]
    split
    · exact Phase.onlyAt_of_client rfl
    · exact Phase.onlyAt_of_select rfl i
  · by_cases hcount : (st.conn i).node.count = (st.conn i).node.size.toNat
    · simp only [next, if_pos hcount]
      exact fits_answer.mpr (.inl ⟨got, hgot.complete hsize hcount⟩)
    · simp only [next, if_neg hcount]
      exact fits_select.mpr (.inr ⟨got, hgot, hgot.incomplete hsize hcount⟩)

theorem Inv.answer (h : Inv st) {r : SendResult} (hen : st.Enabled (.answer i r))
    (hsmooth : st.Smooth (.answer i r)) : Inv (st.next (.answer i r)) := by
  obtain ⟨hphase, hcount, hroom, -⟩ := hen
  have hat : st.phase.OnlyAt i := Phase.onlyAt_of_client (hphase ▸ rfl)
  cases r with
  | again => exact absurd rfl hsmooth
  | sent n =>
    obtain ⟨rest, hrest⟩ := (fits_answer.mp (hphase ▸ h.fits i)).resolve_right fun h' => hcount h'.1
    have hfin : (st.conn i).finished = false := Bool.eq_false_iff.mpr fun hfin =>
      hcount (h.finished i hfin).count
    refine h.replace rfl h.running hat hat (fun h' => ?_) (h.closed i) ?_
    · exact absurd (hfin.symm.trans h') (by simp)
    · apply (show st.phase = _ from hphase) ▸ fits_answer.mpr
      rcases hrest.sent hroom rfl with ⟨hzero, hwaiting⟩ | hrest'
      · exact .inr ⟨hzero, .inl hwaiting⟩
      · exact .inl hrest'

theorem Inv.answered (h : Inv st) (hen : st.Enabled (.answered i)) : Inv (st.next (.answered i)) := by
  obtain ⟨hphase, hcount⟩ := hen
  have hat : st.phase.OnlyAt i := Phase.onlyAt_of_client (hphase ▸ rfl)
  refine h.replace (Function.update_eq_self i st.conn).symm (by simp [Server.next]) hat
    (Phase.onlyAt_of_select rfl i) (h.finished i) (h.closed i) (fits_select.mpr ?_)
  rcases fits_answer.mp (hphase ▸ h.fits i) with ⟨rest, hrest⟩ | ⟨-, hsettled⟩
  · exact absurd (hrest.count.symm.trans hcount)
      (Int.natCast_ne_zero.mpr (List.length_pos_iff.mpr hrest.rest).ne')
  · exact hsettled

theorem Inv.next (h : Inv st) {a : Action ι} (hen : st.Enabled a) (hsmooth : st.Smooth a) :
    Inv (st.next a) := by
  cases a with
  | write i m => exact h.write hen
  | finish i => exact h.finish hen
  | ready i r => exact h.ready hen
  | readHead i r => exact h.readHead hen hsmooth
  | headDone i => exact h.headDone hen hsmooth
  | readBody i r => exact h.readBody hen hsmooth
  | bodyDone i => exact h.bodyDone hen
  | answer i r => exact h.answer hen hsmooth
  | answered i => exact h.answered hen

/-- What the server can still get from a client: bytes, and the end of the stream. -/
def pending (c : Conn) : Nat := c.unread.length + c.isOpen.toNat

def toRead [Fintype ι] (st : Server ι) : Nat := Finset.univ.sum fun i => pending (st.conn i)

/-- How far the loops for one message are from their end. -/
def rank : Phase ι → Nat
  | .select | .crashed => 0
  | .answer _ => 1
  | .body _ => 2
  | .head _ => 3

def toDo (st : Server ι) : Nat :=
  match st.phase with
  | .body i => (st.count - (st.conn i).node.size.toNat).toNat
  | .answer i => (st.conn i).node.count.toNat
  | _ => 0

def work [Fintype ι] (st : Server ι) : ℕ ×ₗ ℕ ×ₗ ℕ := toLex (st.toRead, toLex (rank st.phase, st.toDo))

private theorem Inv.readBody_lt (h : Inv st) (hen : st.Enabled (.readBody i .again)) :
    (st.next (.readBody i .again)).toDo < st.toDo := by
  obtain ⟨hphase, hne, -⟩ := hen
  obtain ⟨hle, -⟩ := fits_body.mp (hphase ▸ h.fits i)
  simp only [toDo, Server.next, setConn, hphase, Function.update_self, RecvResult.value]
  omega

private theorem answer_lt {n : Nat} (hen : st.Enabled (.answer i (.sent n))) :
    (st.next (.answer i (.sent n))).toDo < st.toDo := by
  obtain ⟨hphase, hcount, hroom, hsome⟩ := hen
  have hpos : n ≠ 0 := fun hn => hsome (hn ▸ rfl)
  have hroom : (n : Int) ≤ (st.conn i).node.count := hroom
  simp only [toDo, Server.next, setConn, hphase, Function.update_self, SendResult.value]
  omega

section Work

variable [Fintype ι]

private theorem toRead_lt {c' : Conn} (hconn : st'.conn = Function.update st.conn i c')
    (hless : pending c' < pending (st.conn i)) : st'.toRead < st.toRead := by
  refine Finset.sum_lt_sum (fun j _ => ?_) ⟨i, Finset.mem_univ i, by rwa [hconn, Function.update_self]⟩
  rw [hconn, Function.update_apply]
  split
  · rename_i hj
    exact hj ▸ hless.le
  · exact le_rfl

private theorem toRead_eq {c' : Conn} (hconn : st'.conn = Function.update st.conn i c')
    (hsame : pending c' = pending (st.conn i)) : st'.toRead = st.toRead := by
  apply Finset.sum_congr rfl
  intro j _
  rw [hconn, Function.update_apply]
  split
  · rename_i hj
    exact hj ▸ hsame
  · rfl

omit [DecidableEq ι] in
private theorem work_lt_iff : st'.work < st.work ↔ st'.toRead < st.toRead ∨ st'.toRead = st.toRead ∧
    (rank st'.phase < rank st.phase ∨ rank st'.phase = rank st.phase ∧ st'.toDo < st.toDo) := by
  rw [work, work, Prod.Lex.toLex_lt_toLex, Prod.Lex.toLex_lt_toLex]

private theorem pending_received {bytes : List UInt8} (hne : bytes ≠ []) {c : Conn}
    (hbytes : bytes <+: c.unread) :
    pending (c.received (.data bytes)) < pending c := by
  have hpos := List.length_pos_iff.mpr hne
  have hle := hbytes.length_le
  simp only [pending, Conn.received, RecvResult.bytes, List.length_drop]
  omega

private theorem Inv.ready_lt (h : Inv st) {r : RecvResult} (hen : st.Enabled (.ready i r)) :
    (st.next (.ready i r)).toRead < st.toRead := by
  obtain ⟨-, hopen, hdelivers, hr⟩ := hen
  cases r with
  | again => exact absurd rfl hr
  | closed =>
    have hwaiting := h.finished i (hdelivers.resolve_right (by decide)).1
    have hzero : ((st.conn i).received .closed).node.count ≤ 0 := by
      simp [Conn.received, Node.recv, RecvResult.value, hwaiting.count]
    simp only [Server.next, if_pos hzero]
    exact toRead_lt rfl (by simp [pending, Conn.received, RecvResult.bytes, hopen])
  | data bytes =>
    have hless := pending_received hdelivers.1 hdelivers.2.1
    simp only [Server.next]
    split
    · apply toRead_lt rfl
      apply lt_of_le_of_lt ?_ hless
      simp [pending]
    · exact toRead_lt rfl hless

private theorem readHead_lt {r : RecvResult} (hen : st.Enabled (.readHead i r))
    (hsmooth : st.Smooth (.readHead i r)) : (st.next (.readHead i r)).toRead < st.toRead := by
  obtain ⟨-, -, hdelivers⟩ := hen
  cases r with
  | again => exact absurd rfl hsmooth
  | closed => exact absurd rfl hsmooth
  | data bytes => exact toRead_lt rfl (pending_received hdelivers.1 hdelivers.2.1)

private theorem Inv.work_lt (h : Inv st) {a : Action ι} (hserver : a.byServer) (hen : st.Enabled a)
    (hsmooth : st.Smooth a) : (st.next a).work < st.work := by
  apply work_lt_iff.mpr
  cases a with
  | write i m => cases hserver
  | finish i => cases hserver
  | ready i r => exact .inl (h.ready_lt hen)
  | readHead i r => exact .inl (readHead_lt hen hsmooth)
  | headDone i =>
    refine .inr ⟨?_, .inl ?_⟩
    · simp only [Server.next]
      split
      · rfl
      · exact toRead_eq rfl rfl
    · simp only [Server.next, hen.1]
      split <;> simp [rank]
  | readBody i r =>
    obtain rfl : r = .again := hsmooth
    have hread : (st.next (.readBody i .again)).toRead = st.toRead :=
      toRead_eq rfl (by simp [pending, RecvResult.bytes])
    exact .inr ⟨hread, .inr ⟨rfl, h.readBody_lt hen⟩⟩
  | bodyDone i =>
    refine .inr ⟨rfl, .inl ?_⟩
    simp only [Server.next, hen.1]
    split <;> simp [rank]
  | answer i r =>
    cases r with
    | again => exact absurd rfl hsmooth
    | sent n => exact .inr ⟨toRead_eq rfl rfl, .inr ⟨rfl, answer_lt hen⟩⟩
  | answered i =>
    refine .inr ⟨rfl, .inl ?_⟩
    simp [Server.next, hen.1, rank]

end Work

private theorem Inv.echo_of_idle (h : Inv st) (hidle : ∀ a : Action ι, a.byServer → ¬ st.Enabled a) (i : ι) :
    (st.conn i).echo = (st.conn i).messages.flatten := by
  have hselect : st.phase = .select := by
    cases hphase : st.phase with
    | select => rfl
    | crashed => exact absurd hphase h.running
    | head j =>
      by_cases hcount : (st.conn j).node.count < 2
      · exact absurd ⟨hphase, hcount, trivial⟩ (hidle (.readHead j .again) rfl)
      · exact absurd ⟨hphase, hcount⟩ (hidle (.headDone j) rfl)
    | body j =>
      by_cases hcount : ((st.conn j).node.size.toNat : Int) = st.count
      · exact absurd ⟨hphase, hcount⟩ (hidle (.bodyDone j) rfl)
      · exact absurd ⟨hphase, hcount, trivial⟩ (hidle (.readBody j .again) rfl)
    | answer j =>
      rcases fits_answer.mp (hphase ▸ h.fits j) with ⟨rest, hrest⟩ | ⟨hcount, -⟩
      · have hpos := List.length_pos_iff.mpr hrest.rest
        have hcount := hrest.count
        refine absurd ⟨hphase, ?_, ?_, by simp⟩ (hidle (.answer j (.sent 1)) rfl)
        · omega
        · simp only [SendResult.value]
          omega
      · exact absurd ⟨hphase, hcount⟩ (hidle (.answered j) rfl)
  rcases fits_select.mp (hselect ▸ h.fits i) with hwaiting | ⟨got, hgot, hunread⟩
  · exact hwaiting.echo
  · have hready : st.Enabled (.ready i (.data ((st.conn i).unread.take 1))) := by
      refine ⟨hselect, (h.collecting_open hgot).2, ⟨?_, List.take_prefix _ _, .inl ?_⟩, by simp⟩
      · simpa using hunread
      · have := List.length_take_le 1 (st.conn i).unread
        simp only [bufferLen]
        omega
    exact absurd hready (hidle _ rfl)

/-- In every run in which `count` is at least the size of each message when it has been read, no byte of it
arrives while `count` is counted down, the loop for the size field always gets bytes and `send` always has
room: what a client is sent is a first part of its messages, the server comes to the end of its work, and
then it has sent each client exactly its messages. -/
theorem echoes_faithfully [Fintype ι] {start : Server ι} (hstart : Start start)
    (hrun : Relation.ReflTransGen (Step Smooth) start st) :
    (∀ i, (st.conn i).echo <+: (st.conn i).messages.flatten) ∧
      Acc (fun st'' st' => ServerStep Smooth st' st'') st ∧
      ((∀ a : Action ι, a.byServer → ¬ st.Enabled a) →
        ∀ i, (st.conn i).echo = (st.conn i).messages.flatten) := by
  have h : Inv st := run_invariant Inv hrun (.start hstart) fun _ _ h hstep => by
    obtain ⟨a, hen, hsmooth, rfl⟩ := hstep
    exact h.next hen hsmooth
  refine ⟨fun i => (h.fits i).faithful, run_terminates Inv work ?_ h, h.echo_of_idle⟩
  rintro st' st'' h' ⟨a, hserver, hen, hsmooth, rfl⟩
  exact ⟨h'.next hen hsmooth, h'.work_lt hserver hen hsmooth⟩

/-- The actions one after the other, if each is enabled and admitted. -/
def perform (admits : Server ι → Action ι → Prop) [∀ st a, Decidable (admits st a)] (st : Server ι) :
    List (Action ι) → Option (Server ι)
  | [] => some st
  | a :: actions => if st.Enabled a ∧ admits st a then perform admits (st.next a) actions else none

private theorem reaches_of_perform {admits : Server ι → Action ι → Prop} [∀ st a, Decidable (admits st a)]
    {actions : List (Action ι)} (h : perform admits st actions = some st') :
    Relation.ReflTransGen (Step admits) st st' := by
  induction actions generalizing st with
  | nil =>
    obtain rfl := Option.some.inj h
    exact .refl
  | cons a actions ih =>
    rw [perform] at h
    split at h
    case isTrue hen => exact .head ⟨a, hen.1, hen.2, rfl⟩ (ih h)
    case isFalse => cases h

def ping : List UInt8 := [0, 18] ++ List.replicate 16 48

def otherPing : List UInt8 := [0, 18] ++ List.replicate 16 49

/-- Clients that have written nothing, and a value of `count`. -/
def quiet (ι : Type) (count : Int) : Server ι where
  count := count
  phase := .select
  conn _ := ⟨⟨fun _ => 0, 0, 0⟩, true, false, [], [], []⟩

private theorem quiet_start (ι : Type) (count : Int) : Start (quiet ι count) := by
  constructor
  case phase => rfl
  all_goals
    intros
    rfl

omit [DecidableEq ι] in
private theorem idle_of_select (hphase : st.phase = .select) (hunread : ∀ i, (st.conn i).unread = [])
    (hfinished : ∀ i, (st.conn i).finished = false) (a : Action ι) (ha : a.byServer) : ¬ st.Enabled a := by
  cases a with
  | write i m => cases ha
  | finish i => cases ha
  | ready i r =>
    intro hen
    obtain ⟨-, -, hdelivers, hr⟩ := hen
    cases r with
    | data bytes => exact hdelivers.1 (List.prefix_nil.mp (hunread i ▸ hdelivers.2.1))
    | closed =>
      have hfin := (hdelivers.resolve_right (by decide)).1
      exact absurd ((hfinished i).symm.trans hfin) (by simp)
    | again => exact hr rfl
  | _ => simp [Enabled, hphase]

/-- The messages of two clients come in pieces, in turn; `count` is two above their size at first. -/
theorem twoClients_echoed :
    ∃ st, Relation.ReflTransGen (Step Smooth) (quiet Bool 20) st ∧ (st.conn false).echo = ping ∧
      (st.conn true).echo = otherPing := by
  have hrun : (perform Smooth (quiet Bool 20) [.write false ping, .write true otherPing,
      .ready false (.data (ping.take 10)), .headDone false, .readBody false .again, .readBody false .again,
      .bodyDone false,
      .ready true (.data (otherPing.take 1)), .readHead true (.data ((otherPing.drop 1).take 4)),
        .headDone true,
      .bodyDone true,
      .ready false (.data (ping.drop 10)), .headDone false, .bodyDone false, .answer false (.sent 18),
      .answered false,
      .ready true (.data (otherPing.drop 5)), .headDone true, .bodyDone true, .answer true (.sent 7),
      .answer true (.sent 11), .answered true]).any fun st =>
        decide (st.phase = .select ∧ (∀ i, (st.conn i).unread = []) ∧ (∀ i, (st.conn i).finished = false) ∧
          (st.conn false).messages = [ping] ∧ (st.conn true).messages = [otherPing]) := by
    decide +kernel
  obtain ⟨st, hst, hholds⟩ := (Option.any_eq_true _ _).mp hrun
  obtain ⟨hphase, hunread, hfinished, hmessages, hothers⟩ := of_decide_eq_true hholds
  have hreached := reaches_of_perform hst
  have hecho := (echoes_faithfully (quiet_start Bool 20) hreached).2.2 (idle_of_select hphase hunread hfinished)
  refine ⟨st, hreached, ?_, ?_⟩
  · rw [hecho, hmessages, List.flatten_singleton]
  · rw [hecho, hothers, List.flatten_singleton]

/-- With `count` at 10 the second piece is taken for the rest of the message and not counted in. -/
theorem oneClient_swallowed :
    ∃ st, Start (quiet Unit 10) ∧ Relation.ReflTransGen (Step fun _ _ => True) (quiet Unit 10) st ∧
      WellFormed ping ∧ (∀ a : Action Unit, a.byServer → ¬ st.Enabled a) ∧
      (st.conn ()).messages = [ping] ∧ (st.conn ()).echo = [] := by
  have hrun : (perform (fun _ _ => True) (quiet Unit 10) [.write () ping, .ready () (.data (ping.take 10)),
      .headDone (), .readBody () (.data (ping.drop 10)), .bodyDone ()]).any fun st =>
        decide (st.phase = .select ∧ (∀ i, (st.conn i).unread = []) ∧ (∀ i, (st.conn i).finished = false) ∧
          (st.conn ()).messages = [ping] ∧ (st.conn ()).echo = []) := by
    decide +kernel
  obtain ⟨st, hst, hholds⟩ := (Option.any_eq_true _ _).mp hrun
  obtain ⟨hphase, hunread, hfinished, hmessages, hecho⟩ := of_decide_eq_true hholds
  exact ⟨st, quiet_start Unit 10, reaches_of_perform hst, by decide, idle_of_select hphase hunread hfinished,
    hmessages, hecho⟩

end Server

end Comp556.Ping
