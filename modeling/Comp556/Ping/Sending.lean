import Comp556.Foundation.SendLoop
import Comp556.Ping.Client
import Comp556.Ping.Echo

/-!
# The two send loops

The server counts down what is left and the client counts up what has gone, but both take the -1 of
a failed `send` for a number of bytes.
-/

namespace Comp556.Ping

open SendLoop

/-- A turn of `while (current->count != 0)`. -/
def Node.sent (node : Node) (r : SendResult) : Node := { node with count := node.count - r.value }

/-- What `send` may return, call by call, before the loop ends. -/
def Node.MaySend (node : Node) : List SendResult → Prop
  | [] => True
  | r :: rs => node.count ≠ 0 ∧ r.value ≤ node.count ∧ r ≠ .sent 0 ∧ (node.sent r).MaySend rs

def Node.transmitted (node : Node) : List SendResult → List UInt8
  | [] => []
  | r :: rs => node.outgoing r ++ (node.sent r).transmitted rs

/-- The offsets `current->size - current->count` of the calls. -/
def Node.sendOffsets (node : Node) : List SendResult → List Int
  | [] => []
  | r :: rs => (node.size.toNat - node.count) :: (node.sent r).sendOffsets rs

section Server

variable {ι : Type} [DecidableEq ι] {st : Server ι} {i : ι}

private theorem next_answer (st : Server ι) (i : ι) (r : SendResult) : (st.next (.answer i r)).conn i =
    { st.conn i with
      node := (st.conn i).node.sent r
      echo := (st.conn i).echo ++ (st.conn i).node.outgoing r } := Function.update_self ..

private theorem answers_echo (st : Server ι) (i : ι) (rs : List SendResult) :
    let st' := (rs.map (Action.answer i)).foldl Server.next st
    (st'.conn i).node = rs.foldl Node.sent (st.conn i).node ∧
      (st'.conn i).echo = (st.conn i).echo ++ (st.conn i).node.transmitted rs := by
  induction rs generalizing st with
  | nil => exact ⟨rfl, (List.append_nil _).symm⟩
  | cons r rs ih =>
    obtain ⟨hnode, hecho⟩ := ih (st.next (.answer i r))
    rw [next_answer] at hnode hecho
    refine ⟨hnode, ?_⟩
    simp only [List.map_cons, List.foldl_cons]
    rw [hecho, Node.transmitted, List.append_assoc]

private theorem maySend_of_enabled {rs : List SendResult}
    (h : Along Server.next Server.Enabled st (rs.map (Action.answer i))) : (st.conn i).node.MaySend rs := by
  induction rs generalizing st with
  | nil => trivial
  | cons r rs ih =>
    obtain ⟨⟨-, hcount, hroom, hsome⟩, hrest⟩ := h
    have hnode := ih hrest
    rw [next_answer] at hnode
    exact ⟨hcount, hroom, hsome, hnode⟩

end Server

private theorem mem_values {rs : List SendResult} : -1 ∈ rs.map SendResult.value ↔ .again ∈ rs := by
  rw [List.mem_map]
  constructor
  · intro h
    obtain ⟨r, hr, hvalue⟩ := h
    cases r with
    | again => exact hr
    | sent n =>
      simp only [SendResult.value] at hvalue
      omega
  · intro h
    exact ⟨.again, h, rfl⟩

private theorem value_possible {r : SendResult} (h : r ≠ .sent 0) : r.value = -1 ∨ 1 ≤ r.value := by
  cases r with
  | again => exact .inl rfl
  | sent n =>
    have hn : n ≠ 0 := fun hzero => h (hzero ▸ rfl)
    simp only [SendResult.value]
    omega

private theorem load_eq_map (m : Around) (offset : Int) (r : SendResult) :
    (match r with
      | .sent n => m.load offset n
      | .again => []) = ((List.range r.value.toNat).map fun k : Nat => offset + k).map m := by
  cases r with
  | again => rfl
  | sent n =>
    rw [List.map_map]
    rfl

private theorem Node.transmitted_eq (node : Node) (rs : List SendResult) : node.transmitted rs =
    (handed (node.size.toNat - node.count) (rs.map SendResult.value)).map node.receivebuffer := by
  induction rs generalizing node with
  | nil => rfl
  | cons r rs ih =>
    have hnext : (node.size.toNat - node.count : Int) + r.value = node.size.toNat - (node.count - r.value) := by
      omega
    rw [Node.transmitted, ih, List.map_cons, handed, List.map_append, hnext, ← load_eq_map]
    rfl

private theorem Node.sendOffsets_eq (node : Node) (rs : List SendResult) :
    node.sendOffsets rs = offsets (node.size.toNat - node.count) (rs.map SendResult.value) := by
  induction rs generalizing node with
  | nil => rfl
  | cons r rs ih =>
    have hnext : (node.size.toNat - node.count : Int) + r.value = node.size.toNat - (node.count - r.value) := by
      omega
    rw [Node.sendOffsets, ih, List.map_cons, offsets, hnext]
    rfl

theorem Node.MaySend.possible {node : Node} {rs : List SendResult} (h : node.MaySend rs)
    (hcount : 0 ≤ node.count) :
    Possible node.size.toNat (node.size.toNat - node.count) (rs.map SendResult.value) := by
  induction rs generalizing node with
  | nil => trivial
  | cons r rs ih =>
    obtain ⟨hleft, hroom, hsome, hrest⟩ := h
    have hnext : (node.size.toNat - node.count : Int) + r.value = node.size.toNat - (node.count - r.value) := by
      omega
    refine ⟨by omega, value_possible hsome, by omega, ?_⟩
    rw [hnext]
    apply ih hrest
    show 0 ≤ node.count - r.value
    omega

private theorem Node.count_foldl_sent (node : Node) (rs : List SendResult) :
    (rs.foldl Node.sent node).count = node.count - (rs.map SendResult.value).sum := by
  induction rs generalizing node with
  | nil => simp
  | cons r rs ih =>
    rw [List.foldl_cons, ih, List.map_cons, List.sum_cons]
    show node.count - r.value - _ = _
    omega

/-- What `send` may return, call by call, in `while (send_cnt_thistime < size)`. -/
def Client.MaySend (c : Client) : List SendResult → Prop
  | [] => True
  | r :: rs =>
    c.sendCnt < c.size.toNat ∧ r.value ≤ c.size.toNat - c.sendCnt ∧ r ≠ .sent 0 ∧ (c.nextSend r).MaySend rs

def Client.transmitted (c : Client) : List SendResult → List UInt8
  | [] => []
  | r :: rs => c.outgoing c.sendCnt r ++ (c.nextSend r).transmitted rs

def Client.sendOffsets (c : Client) : List SendResult → List Int
  | [] => []
  | r :: rs => c.sendCnt :: (c.nextSend r).sendOffsets rs

def Client.MaySendAll (c : Client) : List SendResult → Prop
  | [] => True
  | r :: rs => r.value ≤ c.size.toNat ∧ r ≠ .sent 0 ∧ (c.firstSend r).MaySend rs

def Client.allTransmitted (c : Client) : List SendResult → List UInt8
  | [] => []
  | r :: rs => c.outgoing 0 r ++ (c.firstSend r).transmitted rs

def Client.allOffsets (c : Client) : List SendResult → List Int
  | [] => []
  | r :: rs => 0 :: (c.firstSend r).sendOffsets rs

def Client.allSent (c : Client) : List SendResult → Prop
  | [] => False
  | r :: rs => ¬ (rs.foldl Client.nextSend (c.firstSend r)).sendCnt < c.size.toNat

private theorem Client.transmitted_eq (c : Client) (rs : List SendResult) :
    c.transmitted rs = (handed c.sendCnt (rs.map SendResult.value)).map c.sendbuffer := by
  induction rs generalizing c with
  | nil => rfl
  | cons r rs ih =>
    rw [Client.transmitted, ih, List.map_cons, handed, List.map_append, ← load_eq_map]
    rfl

private theorem Client.sendOffsets_eq (c : Client) (rs : List SendResult) :
    c.sendOffsets rs = offsets c.sendCnt (rs.map SendResult.value) := by
  induction rs generalizing c with
  | nil => rfl
  | cons r rs ih =>
    rw [Client.sendOffsets, ih]
    rfl

theorem Client.MaySend.possible {c : Client} {rs : List SendResult} (h : c.MaySend rs) :
    Possible c.size.toNat c.sendCnt (rs.map SendResult.value) := by
  induction rs generalizing c with
  | nil => trivial
  | cons r rs ih =>
    obtain ⟨hleft, hroom, hsome, hrest⟩ := h
    exact ⟨hleft, value_possible hsome, hroom, ih hrest⟩

private theorem Client.sendCnt_foldl_nextSend (c : Client) (rs : List SendResult) :
    (rs.foldl Client.nextSend c).sendCnt = c.sendCnt + (rs.map SendResult.value).sum := by
  induction rs generalizing c with
  | nil => simp
  | cons r rs ih =>
    rw [List.foldl_cons, ih, List.map_cons, List.sum_cons]
    show c.sendCnt + r.value + _ = _
    omega

variable {m : List UInt8} {rs : List SendResult}

private theorem Node.sendsOnce {node : Node} (hm : node.receivebuffer.Holds m)
    (hsize : node.size.toNat = m.length) (hcount : node.count = m.length) (h : node.MaySend rs) :
    let ended := (rs.foldl Node.sent node).count = 0
    (.again ∉ rs → SendsOnce m ended (node.transmitted rs) (node.sendOffsets rs)) ∧
      (ended → (SendsOnce m ended (node.transmitted rs) (node.sendOffsets rs) ↔ .again ∉ rs)) := by
  have hstart : (node.size.toNat - node.count : Int) = 0 := by omega
  have hpossible := h.possible (by omega)
  have hended : (rs.foldl Node.sent node).count = 0 ↔ (rs.map SendResult.value).sum = m.length := by
    rw [Node.count_foldl_sent]
    omega
  rw [hstart, hsize] at hpossible
  rw [Node.transmitted_eq, Node.sendOffsets_eq, hstart, ← mem_values]
  exact ⟨fun hsent => sendsOnce_of_sent hm hpossible hsent hended, sendsOnce_iff hm hpossible hended⟩

private theorem Client.sendsOnce {c : Client} (hm : c.sendbuffer.Holds m) (hsize : c.size.toNat = m.length)
    (hlong : 18 ≤ m.length) (h : c.MaySendAll rs) :
    (.again ∉ rs → SendsOnce m (c.allSent rs) (c.allTransmitted rs) (c.allOffsets rs)) ∧
      (c.allSent rs → (SendsOnce m (c.allSent rs) (c.allTransmitted rs) (c.allOffsets rs) ↔ .again ∉ rs)) := by
  cases rs with
  | nil =>
    refine ⟨fun _ => ⟨?_, List.nil_prefix, False.elim⟩, False.elim⟩
    intro o ho
    cases ho
  | cons r rs =>
    obtain ⟨hroom, hsome, hrest⟩ := h
    have hfirst : (c.firstSend r).sendCnt = 0 + r.value := (Int.zero_add _).symm
    have hpossible : Possible m.length 0 ((r :: rs).map SendResult.value) := by
      refine ⟨by omega, value_possible hsome, by omega, ?_⟩
      rw [← hfirst, ← hsize]
      exact hrest.possible
    have hended : c.allSent (r :: rs) ↔ ((r :: rs).map SendResult.value).sum = m.length := by
      have hle := sum_le hpossible (Int.natCast_nonneg _)
      rw [Client.allSent, Client.sendCnt_foldl_nextSend, hfirst]
      rw [List.map_cons, List.sum_cons] at hle ⊢
      omega
    have htransmitted : c.allTransmitted (r :: rs) =
        (handed 0 ((r :: rs).map SendResult.value)).map c.sendbuffer := by
      rw [Client.allTransmitted, Client.transmitted_eq, hfirst, List.map_cons, handed, List.map_append,
        ← load_eq_map]
      rfl
    have hoffsets : c.allOffsets (r :: rs) = offsets 0 ((r :: rs).map SendResult.value) := by
      rw [Client.allOffsets, Client.sendOffsets_eq, hfirst]
      rfl
    rw [htransmitted, hoffsets, ← mem_values]
    exact ⟨fun hsent => sendsOnce_of_sent hm hpossible hsent hended, sendsOnce_iff hm hpossible hended⟩

/-- As long as no call of `send` fails, each loop sends the message once and in order, from inside it; and a
loop that has ended has done so if and only if no call has failed. -/
theorem send_loops_once_iff {ι : Type} [DecidableEq ι] (m : List UInt8) (rs : List SendResult) :
    (∀ (st : Server ι) (i : ι), (st.conn i).node.receivebuffer.Holds m →
      (st.conn i).node.size.toNat = m.length →
      (st.conn i).node.count = m.length → Along Server.next Server.Enabled st (rs.map (Action.answer i)) →
        let st' := (rs.map (Action.answer i)).foldl Server.next st
        let ended := (st'.conn i).node.count = 0
        ∃ sent, (st'.conn i).echo = (st.conn i).echo ++ sent ∧
          (.again ∉ rs → SendsOnce m ended sent ((st.conn i).node.sendOffsets rs)) ∧
          (ended → (SendsOnce m ended sent ((st.conn i).node.sendOffsets rs) ↔ .again ∉ rs))) ∧
      ∀ c : Client, c.sendbuffer.Holds m → c.size.toNat = m.length → 18 ≤ m.length → c.MaySendAll rs →
        (.again ∉ rs → SendsOnce m (c.allSent rs) (c.allTransmitted rs) (c.allOffsets rs)) ∧
          (c.allSent rs →
            (SendsOnce m (c.allSent rs) (c.allTransmitted rs) (c.allOffsets rs) ↔ .again ∉ rs)) := by
  constructor
  · intro st i hm hsize hcount henabled
    obtain ⟨hnode, hecho⟩ := answers_echo st i rs
    have hsends := Node.sendsOnce hm hsize hcount (maySend_of_enabled henabled)
    rw [← hnode] at hsends
    exact ⟨_, hecho, hsends⟩
  · intro c hm hsize hlong h
    exact Client.sendsOnce hm hsize hlong h

/-- A server and a client that are about to send a message of 18 bytes. -/
def pingServer : Server Unit where
  count := 18
  phase := .answer ()
  conn _ := ⟨⟨Around.store (fun _ => 0) 0 Server.ping, 18, 18⟩, true, false, [Server.ping], [], []⟩

def pingClient : Client := ⟨18, Around.store (fun _ => 0) 0 Server.ping, fun _ => 0, 0, 0⟩

private theorem pingBuffer_holds : (Around.store (fun _ => 0) 0 Server.ping).Holds Server.ping :=
  (Around.holds_nil _).store Server.ping

theorem ping_in_two_parts :
    (([.answer () (.sent 10), .answer () (.sent 8)].foldl Server.next pingServer).conn ()).echo = Server.ping ∧
      pingClient.allTransmitted [.sent 10, .sent 8] = Server.ping := by
  have hloops := send_loops_once_iff (ι := Unit) Server.ping [.sent 10, .sent 8]
  have hclient : pingClient.MaySendAll [.sent 10, .sent 8] :=
    ⟨by decide, by decide, by decide, by decide, by decide, trivial⟩
  constructor
  · obtain ⟨sent, hecho, hsends, -⟩ := hloops.1 pingServer () pingBuffer_holds rfl rfl (by decide)
    exact hecho.trans ((hsends (by decide)).whole rfl)
  · have hsent : pingClient.allSent [.sent 10, .sent 8] := show ¬ (18 : Int) < 18 by decide
    exact ((hloops.2 pingClient pingBuffer_holds rfl (by decide) hclient).1 (by decide)).whole hsent

def failedOnce : List (Action Unit) := [.answer () .again, .answer () (.sent 19)]

/-- One failed call and both loops start over one byte before the message. -/
theorem ping_after_failure :
    (Along Server.next Server.Enabled pingServer failedOnce ∧
        ((failedOnce.foldl Server.next pingServer).conn ()).node.count = 0 ∧
        ¬ SendsOnce Server.ping True ((failedOnce.foldl Server.next pingServer).conn ()).echo
          ((pingServer.conn ()).node.sendOffsets [.again, .sent 19])) ∧
      pingClient.MaySendAll [.again, .sent 19] ∧ pingClient.allSent [.again, .sent 19] ∧
        ¬ SendsOnce Server.ping True (pingClient.allTransmitted [.again, .sent 19])
          (pingClient.allOffsets [.again, .sent 19]) := by
  refine ⟨⟨by decide, rfl, fun h => ?_⟩, ?_, ?_, fun h => ?_⟩
  · exact absurd (h.inside (-1) (by decide)).1 (by decide)
  · exact ⟨by decide, by decide, by decide, by decide, by decide, trivial⟩
  · exact show ¬ (18 : Int) < 18 by decide
  · exact absurd (h.inside (-1) (by decide)).1 (by decide)

end Comp556.Ping
