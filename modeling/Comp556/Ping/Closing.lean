import Comp556.Ping.Sending

/-!
# Peers that close or fail

From some call on, every `recv` on a connection returns 0 because the peer has closed it, or every
one returns -1. What is sent to such a peer may be taken, be refused with -1, or end the process by
SIGPIPE, which the server does not ignore.
-/

namespace Comp556.Ping

variable {ι : Type}

/-- What the calls on the connection do from now on. -/
structure Peer where
  /-- What every call of `recv` returns. -/
  result : RecvResult
  /-- A call of `send` may return -1. -/
  mayFail : Bool
  /-- A call of `send` may raise SIGPIPE. -/
  mayKill : Bool

/-- Every `recv` tells of the end of the stream, or every one fails. -/
def Gone (r : RecvResult) : Prop := r = .closed ∨ r = .again

/-- `send` takes some of what it is given, or fails. -/
def Peer.Sends (p : Peer) : SendResult → Prop
  | .sent n => n ≠ 0
  | .again => p.mayFail = true

/-- Every call of `send` takes some of what it is given. -/
def Peer.Takes (p : Peer) : Prop := p.mayFail = false ∧ p.mayKill = false

instance (p : Peer) : Decidable p.Takes := inferInstanceAs (Decidable (_ ∧ _))

theorem Gone.bytes {r : RecvResult} (h : Gone r) : r.bytes = [] := by
  rcases h with rfl | rfl
  · rfl
  · rfl

theorem Gone.value_le {r : RecvResult} (h : Gone r) : r.value ≤ 0 := by
  rcases h with rfl | rfl
  · decide
  · decide

private theorem Gone.value_ge {r : RecvResult} (h : Gone r) : -1 ≤ r.value := by
  rcases h with rfl | rfl
  · decide
  · decide

/-- The counts of a connection and of `main`, the size that has been read from the buffer, and the one
that is there to be read. -/
structure Gauge (ι : Type) where
  phase : Phase ι
  isOpen : Bool
  count : Int
  mainCount : Int
  size : Int
  messageSize : Int

def gauge (i : ι) (st : Server ι) : Gauge ι where
  phase := st.phase
  isOpen := (st.conn i).isOpen
  count := (st.conn i).node.count
  mainCount := st.count
  size := (st.conn i).node.size.toNat
  messageSize := (st.conn i).node.messageSize.toNat

namespace Gauge

/-- A step, when `recv` brings no bytes. -/
inductive Turn (i : ι) (p : Peer) (g : Gauge ι) : Gauge ι → Prop
  | closed (hphase : g.phase = .select) (hopen : g.isOpen = true) (hcount : g.count + p.result.value ≤ 0) :
      Turn i p g { g with isOpen := false, count := g.count + p.result.value }
  | ready (hphase : g.phase = .select) (hopen : g.isOpen = true) (hcount : ¬ g.count + p.result.value ≤ 0) :
      Turn i p g { g with phase := .head i, count := g.count + p.result.value }
  | readHead (hphase : g.phase = .head i) (hcount : g.count < 2) :
      Turn i p g { g with count := g.count + p.result.value }
  | headShort (hphase : g.phase = .head i) (hcount : ¬ g.count < 2) (hsize : g.messageSize < 18) :
      Turn i p g { g with phase := .crashed }
  | headDone (hphase : g.phase = .head i) (hcount : ¬ g.count < 2) (hsize : ¬ g.messageSize < 18) :
      Turn i p g { g with phase := .body i, size := g.messageSize }
  | readBody (hphase : g.phase = .body i) (hcount : g.size ≠ g.mainCount) :
      Turn i p g { g with mainCount := g.mainCount + p.result.value }
  | bodyDone (hphase : g.phase = .body i) (hcount : g.size = g.mainCount) :
      Turn i p g { g with phase := if g.count = g.size then .answer i else .select }
  | answer (r : SendResult) (hphase : g.phase = .answer i) (hcount : g.count ≠ 0) (hsends : p.Sends r)
      (hroom : r.value ≤ g.count) : Turn i p g { g with count := g.count - r.value }
  | killed (hphase : g.phase = .answer i) (hcount : g.count ≠ 0) (hkill : p.mayKill = true) :
      Turn i p g { g with phase := .crashed }
  | answered (hphase : g.phase = .answer i) (hcount : g.count = 0) : Turn i p g { g with phase := .select }

/-- The server is at the connection or about to come to it, or has crashed there. -/
structure At (i : ι) (g : Gauge ι) : Prop where
  phase : g.phase = .select ∨ g.phase = .head i ∨ g.phase = .body i ∨ g.phase = .answer i ∨ g.phase = .crashed
  isOpen : g.phase ≠ .select → g.isOpen = true
  body : g.phase = .body i → 2 ≤ g.count
  answer : g.phase = .answer i → 0 ≤ g.count

/-- A whole message is in the buffer, long enough for its header, `main` has its size as a count from
before, so the loops for it end, and `send` takes it. When `recv` fails each call lowers a count by one,
so they may be too high. -/
def Answerable (p : Peer) (g : Gauge ι) : Prop :=
  18 ≤ g.messageSize ∧ p.Takes ∧
    (p.result = .closed ∧ g.count = g.messageSize ∧ g.mainCount = g.messageSize ∨
      p.result = .again ∧ g.messageSize ≤ g.count ∧ g.messageSize ≤ g.mainCount)

/-- The same in the loop for the rest of a message, whose size has been read. -/
def BodyAnswerable (p : Peer) (g : Gauge ι) : Prop :=
  p.Takes ∧
    (p.result = .closed ∧ g.mainCount = g.size ∧ g.count = g.size ∨
      p.result = .again ∧ g.size ≤ g.mainCount ∧
        (g.count = g.size ∨ 18 ≤ g.messageSize ∧ g.messageSize < g.count ∧ g.messageSize ≤ g.size))

/-- When the peer closes or `recv` starts to fail, nothing is buffered at the call of `recv` after
`select`, or a whole message is that can be sent back. -/
def Clears (p : Peer) (g : Gauge ι) : Prop :=
  match g.phase with
  | .select => g.count + p.result.value ≤ 0 ∨ Answerable p { g with count := g.count + p.result.value }
  | .head _ => Answerable p g
  | .body _ => BodyAnswerable p g
  | .answer _ => g.count = 0 ∨ p.Takes
  | .crashed => False

def stepsLeft (p : Peer) (g : Gauge ι) : Nat :=
  if g.isOpen = true then
    match g.phase with
    | .select =>
      if g.count + p.result.value ≤ 0 then 1 else (5 * (g.count + p.result.value) + g.mainCount + 4).toNat
    | .head _ => (5 * g.count + g.mainCount + 3).toNat
    | .body _ => (5 * g.count + g.mainCount + 2).toNat
    | .answer _ => (g.count + 2).toNat
    | .crashed => 0
  else 0

variable {i : ι} {p : Peer} {g g' : Gauge ι}

private theorem Turn.open_ (h : g.At i) (hturn : Turn i p g g') : g.isOpen = true := by
  cases hturn with
  | closed hphase hopen hcount => exact hopen
  | ready hphase hopen hcount => exact hopen
  | readHead hphase hcount => exact h.isOpen (by simp [hphase])
  | headShort hphase hcount hsize => exact h.isOpen (by simp [hphase])
  | headDone hphase hcount hsize => exact h.isOpen (by simp [hphase])
  | readBody hphase hcount => exact h.isOpen (by simp [hphase])
  | bodyDone hphase hcount => exact h.isOpen (by simp [hphase])
  | answer r hphase hcount hsends hroom => exact h.isOpen (by simp [hphase])
  | killed hphase hcount hkill => exact h.isOpen (by simp [hphase])
  | answered hphase hcount => exact h.isOpen (by simp [hphase])

private theorem Turn.at_ (h : g.At i) (hturn : Turn i p g g') : g'.At i := by
  have hopen := hturn.open_ h
  have hcrashed : ({ g with phase := .crashed } : Gauge ι).At i :=
    ⟨.inr (.inr (.inr (.inr rfl))), fun _ => hopen, by simp, by simp⟩
  cases hturn with
  | closed hphase _ hcount => exact ⟨.inl hphase, by simp [hphase], by simp [hphase], by simp [hphase]⟩
  | ready hphase _ hcount => exact ⟨.inr (.inl rfl), fun _ => hopen, by simp, by simp⟩
  | readHead hphase hcount => exact ⟨h.phase, fun _ => hopen, by simp [hphase], by simp [hphase]⟩
  | headShort hphase hcount hsize => exact hcrashed
  | headDone hphase hcount hsize =>
    exact ⟨.inr (.inr (.inl rfl)), fun _ => hopen, fun _ => Int.not_lt.mp hcount, by simp⟩
  | readBody hphase hcount => exact ⟨h.phase, fun _ => hopen, h.body, h.answer⟩
  | bodyDone hphase hcount =>
    have hlong := h.body hphase
    refine ⟨?_, fun _ => hopen, fun _ => hlong, fun _ => Int.le_trans (by decide) hlong⟩
    show (if g.count = g.size then Phase.answer i else .select) = _ ∨ _
    split
    · exact .inr (.inr (.inr (.inl rfl)))
    · exact .inl rfl
  | answer r hphase hcount hsends hroom =>
    refine ⟨h.phase, fun _ => hopen, by simp [hphase], fun _ => ?_⟩
    show 0 ≤ g.count - r.value
    omega
  | killed hphase hcount hkill => exact hcrashed
  | answered hphase hcount => exact ⟨.inl rfl, fun _ => hopen, by simp, by simp⟩

private theorem Answerable.bounds (h : Answerable p g) :
    18 ≤ g.messageSize ∧ g.messageSize ≤ g.count ∧ g.messageSize ≤ g.mainCount := by
  obtain ⟨hz, -, ⟨-, hc, hn⟩ | ⟨-, hc, hn⟩⟩ := h
  · exact ⟨hz, hc.ge, hn.ge⟩
  · exact ⟨hz, hc, hn⟩

private theorem Turn.clears (hp : Gone p.result) (hclears : g.Clears p) (hturn : Turn i p g g')
    (hopen : g'.isOpen = true) : g'.Clears p := by
  cases hturn with
  | closed hphase _ hcount => exact absurd hopen Bool.false_ne_true
  | ready hphase _ hcount =>
    simp only [Clears, hphase] at hclears
    exact hclears.resolve_left hcount
  | readHead hphase hcount =>
    simp only [Clears, hphase] at hclears
    have hbounds := hclears.bounds
    omega
  | headShort hphase hcount hsize =>
    simp only [Clears, hphase] at hclears
    have hbounds := hclears.bounds
    omega
  | headDone hphase hcount hsize =>
    simp only [Clears, hphase] at hclears
    obtain ⟨hz, htakes, ⟨hr, hc, hn⟩ | ⟨hr, hc, hn⟩⟩ := hclears
    · exact ⟨htakes, .inl ⟨hr, hn, hc⟩⟩
    · refine ⟨htakes, .inr ⟨hr, hn, ?_⟩⟩
      show g.count = g.messageSize ∨ 18 ≤ g.messageSize ∧ g.messageSize < g.count ∧
        g.messageSize ≤ g.messageSize
      omega
  | readBody hphase hcount =>
    simp only [Clears, hphase] at hclears ⊢
    obtain ⟨htakes, ⟨-, hn, -⟩ | ⟨hr, hn, hc⟩⟩ := hclears
    · exact absurd hn.symm hcount
    · refine ⟨htakes, .inr ⟨hr, ?_, hc⟩⟩
      show g.size ≤ g.mainCount + p.result.value
      rw [hr, RecvResult.value]
      omega
  | bodyDone hphase hcount =>
    simp only [Clears, hphase] at hclears
    obtain ⟨htakes, hclears⟩ := hclears
    by_cases hwhole : g.count = g.size
    · rw [if_pos hwhole]
      exact .inr htakes
    · rw [if_neg hwhole]
      obtain ⟨-, -, hc⟩ | ⟨hr, -, hc⟩ := hclears
      · exact absurd hc hwhole
      · obtain ⟨hz, hless, hle⟩ := hc.resolve_left hwhole
        refine .inr ⟨hz, htakes, .inr ⟨hr, ?_, ?_⟩⟩
        · show g.messageSize ≤ g.count + p.result.value
          rw [hr, RecvResult.value]
          omega
        · show g.messageSize ≤ g.mainCount
          omega
  | answer r hphase hcount hsends hroom =>
    simp only [Clears, hphase] at hclears ⊢
    exact .inr (hclears.resolve_left hcount)
  | killed hphase hcount hkill =>
    simp only [Clears, hphase] at hclears
    exact absurd hkill (by simp [(hclears.resolve_left hcount).2])
  | answered hphase hcount =>
    apply Or.inl
    show g.count + p.result.value ≤ 0
    have hvalue := hp.value_le
    omega

private theorem Turn.stepsLeft_lt (hp : Gone p.result) (h : g.At i) (hclears : g.Clears p)
    (hturn : Turn i p g g') : g'.stepsLeft p < g.stepsLeft p := by
  have hopen := hturn.open_ h
  cases hturn with
  | closed hphase _ hcount => simp [stepsLeft, hphase, hopen, hcount]
  | ready hphase _ hcount =>
    simp only [Clears, hphase] at hclears
    have hbounds := (hclears.resolve_left hcount).bounds
    simp only [stepsLeft, hphase, hopen, if_true, if_neg hcount] at hbounds ⊢
    omega
  | readHead hphase hcount =>
    simp only [Clears, hphase] at hclears
    have hbounds := hclears.bounds
    omega
  | headShort hphase hcount hsize =>
    simp only [Clears, hphase] at hclears
    have hbounds := hclears.bounds
    omega
  | headDone hphase hcount hsize =>
    simp only [Clears, hphase] at hclears
    have hbounds := hclears.bounds
    simp only [stepsLeft, hphase, hopen, if_true]
    omega
  | readBody hphase hcount =>
    have hlong := h.body hphase
    simp only [Clears, hphase] at hclears
    obtain ⟨-, ⟨-, hn, -⟩ | ⟨hr, hn, hc⟩⟩ := hclears
    · exact absurd hn.symm hcount
    · simp only [stepsLeft, hphase, hopen, if_true, hr, RecvResult.value]
      omega
  | bodyDone hphase hcount =>
    have hlong := h.body hphase
    simp only [Clears, hphase] at hclears
    by_cases hwhole : g.count = g.size
    · rw [if_pos hwhole]
      simp only [stepsLeft, hphase, hopen, if_true]
      omega
    · rw [if_neg hwhole]
      obtain ⟨-, ⟨-, -, hc⟩ | ⟨hr, -, hc⟩⟩ := hclears
      · exact absurd hc hwhole
      · have hsizes := hc.resolve_left hwhole
        have hleft : ¬ g.count + RecvResult.again.value ≤ 0 := by
          show ¬ g.count + -1 ≤ 0
          omega
        simp only [stepsLeft, hphase, hopen, hr, if_true, if_neg hleft]
        simp only [RecvResult.value]
        omega
  | answer r hphase hcount hsends hroom =>
    simp only [Clears, hphase] at hclears
    have htakes := hclears.resolve_left hcount
    have hpos : 0 < r.value := by
      cases r with
      | sent n => exact Int.natCast_pos.mpr (Nat.pos_of_ne_zero hsends)
      | again => exact absurd (show p.mayFail = true from hsends) (by simp [htakes.1])
    simp only [stepsLeft, hphase, hopen, if_true]
    omega
  | killed hphase hcount hkill =>
    simp only [stepsLeft, hphase, hopen, if_true]
    have hpositive := h.answer hphase
    omega
  | answered hphase hcount =>
    have hlow : g.count + p.result.value ≤ 0 := by
      have hvalue := hp.value_le
      omega
    simp only [stepsLeft, hphase, hopen, if_true, if_pos hlow]
    omega

private theorem At.turn (h : g.At i) (hopen : g.isOpen = true) (hrunning : g.phase ≠ .crashed) (p : Peer) :
    ∃ g', Turn i p g g' := by
  rcases h.phase with hphase | hphase | hphase | hphase | hphase
  · by_cases hcount : g.count + p.result.value ≤ 0
    · exact ⟨_, .closed hphase hopen hcount⟩
    · exact ⟨_, .ready hphase hopen hcount⟩
  · by_cases hcount : g.count < 2
    · exact ⟨_, .readHead hphase hcount⟩
    · by_cases hsize : g.messageSize < 18
      · exact ⟨_, .headShort hphase hcount hsize⟩
      · exact ⟨_, .headDone hphase hcount hsize⟩
  · by_cases hcount : g.size = g.mainCount
    · exact ⟨_, .bodyDone hphase hcount⟩
    · exact ⟨_, .readBody hphase hcount⟩
  · have hpositive := h.answer hphase
    by_cases hcount : g.count = 0
    · exact ⟨_, .answered hphase hcount⟩
    · refine ⟨_, .answer (.sent 1) hphase hcount Nat.one_ne_zero ?_⟩
      show (1 : Int) ≤ g.count
      omega
  · exact absurd hphase hrunning

/-- Where the connection is never closed in the end. -/
structure Stuck (i : ι) (p : Peer) (g : Gauge ι) : Prop where
  at_ : g.At i
  isOpen : g.isOpen = true
  never : ¬ g.Clears p

private theorem Stuck.of_turn (h : g.Stuck i p) (hturn : Turn i p g g') (hopen : g'.isOpen = g.isOpen)
    (hnever : ¬ g'.Clears p) : ∃ g', Turn i p g g' ∧ g'.Stuck i p :=
  ⟨g', hturn, hturn.at_ h.at_, hopen.trans h.isOpen, hnever⟩

private theorem Stuck.readHead (hp : Gone p.result) (h : g.Stuck i p) (hphase : g.phase = .head i) :
    ∃ g', Turn i p g g' ∧ g'.Stuck i p := by
  have hnever := h.never
  simp only [Clears, hphase] at hnever
  by_cases hcount : g.count < 2
  · refine h.of_turn (.readHead hphase hcount) rfl ?_
    simp only [Clears, hphase]
    intro hwhole
    have hbounds : 18 ≤ g.messageSize ∧ g.messageSize ≤ g.count + p.result.value ∧ _ := hwhole.bounds
    have hvalue : p.result.value ≤ 0 := hp.value_le
    omega
  by_cases hsize : g.messageSize < 18
  · exact h.of_turn (.headShort hphase hcount hsize) rfl id
  · refine h.of_turn (.headDone hphase hcount hsize) rfl ?_
    intro hbody
    apply hnever
    obtain ⟨htakes, ⟨heq, hn, hc⟩ | ⟨heq, hn, hc⟩⟩ := hbody
    · exact ⟨Int.not_lt.mp hsize, htakes, .inl ⟨heq, hc, hn⟩⟩
    · have hcount' : g.count = g.messageSize ∨ 18 ≤ g.messageSize ∧ g.messageSize < g.count ∧ _ := hc
      exact ⟨Int.not_lt.mp hsize, htakes, .inr ⟨heq, by omega, hn⟩⟩

private theorem Stuck.readBody (hp : Gone p.result) (h : g.Stuck i p) (hphase : g.phase = .body i) :
    ∃ g', Turn i p g g' ∧ g'.Stuck i p := by
  have hlong := h.at_.body hphase
  have hnever := h.never
  simp only [Clears, hphase] at hnever
  by_cases hcount : g.size = g.mainCount
  · refine h.of_turn (.bodyDone hphase hcount) rfl ?_
    by_cases hwhole : g.count = g.size
    · rw [if_pos hwhole]
      intro hclears
      have htakes : p.Takes := Or.resolve_left hclears (show g.count ≠ 0 by omega)
      apply hnever
      rcases hp with hr | hr
      · exact ⟨htakes, .inl ⟨hr, hcount.symm, hwhole⟩⟩
      · exact ⟨htakes, .inr ⟨hr, hcount.le, .inl hwhole⟩⟩
    · rw [if_neg hwhole]
      intro hclears
      obtain hlow | ⟨hz, htakes, ⟨hr, hc, hn⟩ | ⟨hr, hc, hn⟩⟩ := hclears
      · have hlow' : g.count + p.result.value ≤ 0 := hlow
        have hvalue : -1 ≤ p.result.value := hp.value_ge
        omega
      · have hc' : g.count + p.result.value = g.messageSize := hc
        have hn' : g.mainCount = g.messageSize := hn
        rw [hr, RecvResult.value] at hc'
        omega
      · have hc' : g.messageSize ≤ g.count + p.result.value := hc
        have hn' : g.messageSize ≤ g.mainCount := hn
        rw [hr, RecvResult.value] at hc'
        exact hnever ⟨htakes, .inr ⟨hr, hcount.le, .inr ⟨hz, by omega, by omega⟩⟩⟩
  · refine h.of_turn (.readBody hphase hcount) rfl ?_
    simp only [Clears, hphase]
    intro hbody
    obtain ⟨htakes, ⟨hr, hn, hc⟩ | ⟨hr, hn, hc⟩⟩ := hbody
    · have hn' : g.mainCount + p.result.value = g.size := hn
      rw [hr, RecvResult.value] at hn'
      omega
    · have hn' : g.size ≤ g.mainCount + p.result.value := hn
      rw [hr, RecvResult.value] at hn'
      exact hnever ⟨htakes, .inr ⟨hr, by omega, hc⟩⟩

private theorem Stuck.answer (h : g.Stuck i p) (hphase : g.phase = .answer i) :
    ∃ g', Turn i p g g' ∧ g'.Stuck i p := by
  have hpositive := h.at_.answer hphase
  have hnever := h.never
  simp only [Clears, hphase, not_or] at hnever
  obtain ⟨hcount, hrefuses⟩ := hnever
  by_cases hkill : p.mayKill = true
  · exact h.of_turn (.killed hphase hcount hkill) rfl id
  · have hfail : p.mayFail = true := by
      cases hfail : p.mayFail with
      | true => rfl
      | false => exact absurd ⟨hfail, Bool.eq_false_iff.mpr hkill⟩ hrefuses
    have hroom : SendResult.again.value ≤ g.count := Int.le_trans (by decide) hpositive
    refine h.of_turn (.answer .again hphase hcount hfail hroom) rfl ?_
    simp only [Clears, hphase, not_or]
    refine ⟨?_, hrefuses⟩
    show ¬ g.count - -1 = 0
    omega

private theorem Stuck.turn (hp : Gone p.result) (h : g.Stuck i p) :
    g.phase = .crashed ∨ ∃ g', Turn i p g g' ∧ g'.Stuck i p := by
  rcases h.at_.phase with hphase | hphase | hphase | hphase | hphase
  · have hnever := h.never
    simp only [Clears, hphase, not_or] at hnever
    exact .inr (h.of_turn (.ready hphase h.isOpen hnever.1) rfl hnever.2)
  · exact .inr (h.readHead hp hphase)
  · exact .inr (h.readBody hp hphase)
  · exact .inr (h.answer hphase)
  · exact .inl hphase

end Gauge

variable [DecidableEq ι]

/-- `dump`, on the sockets of the linked list: the first node with the socket is taken out. -/
def dump (socket : ι) : List ι → List ι
  | [] => []
  | s :: rest => if s = socket then rest else s :: dump socket rest

/-- The server, and the sockets of its linked list from the head on. -/
structure Listed (ι : Type) where
  server : Server ι
  sockets : List ι

/-- A step of the server at the connection `i`. `dump` is called where the connection is closed. -/
inductive Turn (i : ι) (p : Peer) : Listed ι → Listed ι → Prop
  | ready {st : Server ι} {sockets : List ι} (hphase : st.phase = .select)
      (hopen : (st.conn i).isOpen = true) :
      Turn i p ⟨st, sockets⟩ ⟨st.next (.ready i p.result),
        if ((st.next (.ready i p.result)).conn i).isOpen = true then sockets else dump i sockets⟩
  | readHead {st : Server ι} {sockets : List ι} (hphase : st.phase = .head i)
      (hcount : (st.conn i).node.count < 2) : Turn i p ⟨st, sockets⟩ ⟨st.next (.readHead i p.result), sockets⟩
  | headDone {st : Server ι} {sockets : List ι} (hphase : st.phase = .head i)
      (hcount : ¬ (st.conn i).node.count < 2) : Turn i p ⟨st, sockets⟩ ⟨st.next (.headDone i), sockets⟩
  | readBody {st : Server ι} {sockets : List ι} (hphase : st.phase = .body i)
      (hcount : ((st.conn i).node.size.toNat : Int) ≠ st.count) :
      Turn i p ⟨st, sockets⟩ ⟨st.next (.readBody i p.result), sockets⟩
  | bodyDone {st : Server ι} {sockets : List ι} (hphase : st.phase = .body i)
      (hcount : ((st.conn i).node.size.toNat : Int) = st.count) :
      Turn i p ⟨st, sockets⟩ ⟨st.next (.bodyDone i), sockets⟩
  | answer {st : Server ι} {sockets : List ι} {r : SendResult} (hphase : st.phase = .answer i)
      (hcount : (st.conn i).node.count ≠ 0) (hsends : p.Sends r) (hroom : r.value ≤ (st.conn i).node.count) :
      Turn i p ⟨st, sockets⟩ ⟨st.next (.answer i r), sockets⟩
  | killed {st : Server ι} {sockets : List ι} (hphase : st.phase = .answer i)
      (hcount : (st.conn i).node.count ≠ 0) (hkill : p.mayKill = true) :
      Turn i p ⟨st, sockets⟩ ⟨{ st with phase := .crashed }, sockets⟩
  | answered {st : Server ι} {sockets : List ι} (hphase : st.phase = .answer i)
      (hcount : (st.conn i).node.count = 0) : Turn i p ⟨st, sockets⟩ ⟨st.next (.answered i), sockets⟩

def Conn.withCount (c : Conn) (n : Int) : Conn := { c with node := { c.node with count := n } }

variable {i : ι} {p : Peer} {r : RecvResult} {st : Server ι} {s t : Listed ι}

private theorem Conn.received_idle (hr : r.bytes = []) (c : Conn) :
    c.received r = c.withCount (c.node.count + r.value) := by
  simp [Conn.received, Node.recv, hr, Conn.withCount]

private theorem next_ready_closed (hr : r.bytes = []) (h : (st.conn i).node.count + r.value ≤ 0) :
    st.next (.ready i r) =
      st.setConn i { (st.conn i).withCount ((st.conn i).node.count + r.value) with isOpen := false } := by
  rw [Server.next, Conn.received_idle hr]
  exact if_pos h

private theorem next_ready_open (hr : r.bytes = []) (h : ¬ (st.conn i).node.count + r.value ≤ 0) :
    st.next (.ready i r) =
      { st.setConn i ((st.conn i).withCount ((st.conn i).node.count + r.value)) with phase := .head i } := by
  rw [Server.next, Conn.received_idle hr]
  exact if_neg h

private theorem next_readHead (hr : r.bytes = []) : st.next (.readHead i r) =
    st.setConn i ((st.conn i).withCount ((st.conn i).node.count + r.value)) := by
  rw [Server.next, Conn.received_idle hr]

private theorem next_readBody (hr : r.bytes = []) :
    st.next (.readBody i r) = { st with count := st.count + r.value } := by
  simp [Server.next, Server.setConn, hr]

private theorem gauge_setConn (c : Conn) : gauge i (st.setConn i c) =
    ⟨st.phase, c.isOpen, c.node.count, st.count, c.node.size.toNat, c.node.messageSize.toNat⟩ := by
  simp [gauge, Server.setConn]

private theorem gauge_ready_closed (hr : r.bytes = []) (h : (gauge i st).count + r.value ≤ 0) :
    gauge i (st.next (.ready i r)) =
      { gauge i st with isOpen := false, count := (gauge i st).count + r.value } := by
  rw [next_ready_closed hr h, gauge_setConn]
  rfl

private theorem gauge_ready_open (hr : r.bytes = []) (h : ¬ (gauge i st).count + r.value ≤ 0) :
    gauge i (st.next (.ready i r)) =
      { gauge i st with phase := .head i, count := (gauge i st).count + r.value } := by
  have hset : gauge i (st.setConn i _) = _ :=
    gauge_setConn ((st.conn i).withCount ((st.conn i).node.count + r.value))
  rw [next_ready_open hr h]
  exact congrArg (fun g : Gauge ι => { g with phase := .head i }) hset

private theorem gauge_readHead (hr : r.bytes = []) :
    gauge i (st.next (.readHead i r)) = { gauge i st with count := (gauge i st).count + r.value } := by
  rw [next_readHead hr, gauge_setConn]
  rfl

private theorem gauge_headShort (hsize : (gauge i st).messageSize < 18) :
    gauge i (st.next (.headDone i)) = { gauge i st with phase := .crashed } := by
  have hshort : (st.conn i).node.messageSize.toNat < 18 := Int.ofNat_lt.mp hsize
  rw [Server.next, if_pos hshort]
  rfl

private theorem gauge_headDone (hsize : ¬ (gauge i st).messageSize < 18) : gauge i (st.next (.headDone i)) =
    { gauge i st with phase := .body i, size := (gauge i st).messageSize } := by
  have hlong : ¬ (st.conn i).node.messageSize.toNat < 18 := fun h => hsize (Int.ofNat_lt.mpr h)
  have hset : gauge i (st.setConn i _) = _ := gauge_setConn
    { st.conn i with node := { (st.conn i).node with size := (st.conn i).node.messageSize } }
  rw [Server.next, if_neg hlong]
  exact congrArg (fun g : Gauge ι => { g with phase := .body i }) hset

private theorem gauge_readBody (hr : r.bytes = []) :
    gauge i (st.next (.readBody i r)) = { gauge i st with mainCount := (gauge i st).mainCount + r.value } := by
  rw [next_readBody hr]
  rfl

private theorem gauge_bodyDone : gauge i (st.next (.bodyDone i)) =
    { gauge i st with phase := if (gauge i st).count = (gauge i st).size then .answer i else .select } := rfl

private theorem gauge_answer (r : SendResult) : gauge i (st.next (.answer i r)) =
    { gauge i st with count := (gauge i st).count - r.value } :=
  gauge_setConn _

private theorem gauge_answered : gauge i (st.next (.answered i)) = { gauge i st with phase := .select } := rfl

private theorem Turn.gauge (hp : Gone p.result) (hturn : Turn i p s t) :
    Gauge.Turn i p (gauge i s.server) (gauge i t.server) := by
  cases hturn with
  | @ready st sockets hphase hopen =>
    by_cases hcount : (Ping.gauge i st).count + p.result.value ≤ 0
    · have hstep := Gauge.Turn.closed (i := i) hphase hopen hcount
      rwa [← gauge_ready_closed hp.bytes hcount] at hstep
    · have hstep := Gauge.Turn.ready (i := i) hphase hopen hcount
      rwa [← gauge_ready_open hp.bytes hcount] at hstep
  | @readHead st sockets hphase hcount =>
    have hstep := Gauge.Turn.readHead (p := p) (g := Ping.gauge i st) hphase hcount
    rwa [← gauge_readHead hp.bytes] at hstep
  | @headDone st sockets hphase hcount =>
    by_cases hsize : (Ping.gauge i st).messageSize < 18
    · have hstep := Gauge.Turn.headShort (p := p) (g := Ping.gauge i st) hphase hcount hsize
      rwa [← gauge_headShort hsize] at hstep
    · have hstep := Gauge.Turn.headDone (p := p) (g := Ping.gauge i st) hphase hcount hsize
      rwa [← gauge_headDone hsize] at hstep
  | @readBody st sockets hphase hcount =>
    have hstep := Gauge.Turn.readBody (p := p) (g := Ping.gauge i st) hphase hcount
    rwa [← gauge_readBody hp.bytes] at hstep
  | @bodyDone st sockets hphase hcount =>
    exact Gauge.Turn.bodyDone (g := Ping.gauge i st) hphase hcount
  | @answer st sockets r hphase hcount hsends hroom =>
    have hstep := Gauge.Turn.answer (g := Ping.gauge i st) r hphase hcount hsends hroom
    rwa [← gauge_answer] at hstep
  | @killed st sockets hphase hcount hkill =>
    exact Gauge.Turn.killed (g := Ping.gauge i st) hphase hcount hkill
  | @answered st sockets hphase hcount =>
    exact Gauge.Turn.answered (g := Ping.gauge i st) hphase hcount

theorem Gauge.Turn.lift (hp : Gone p.result) {g : Gauge ι} (hturn : Gauge.Turn i p (gauge i s.server) g) :
    ∃ t, Ping.Turn i p s t ∧ gauge i t.server = g := by
  cases hturn with
  | closed hphase hopen hcount => exact ⟨_, .ready hphase hopen, gauge_ready_closed hp.bytes hcount⟩
  | ready hphase hopen hcount => exact ⟨_, .ready hphase hopen, gauge_ready_open hp.bytes hcount⟩
  | readHead hphase hcount => exact ⟨_, .readHead hphase hcount, gauge_readHead hp.bytes⟩
  | headShort hphase hcount hsize => exact ⟨_, .headDone hphase hcount, gauge_headShort hsize⟩
  | headDone hphase hcount hsize => exact ⟨_, .headDone hphase hcount, gauge_headDone hsize⟩
  | readBody hphase hcount => exact ⟨_, .readBody hphase hcount, gauge_readBody hp.bytes⟩
  | bodyDone hphase hcount => exact ⟨_, .bodyDone hphase hcount, gauge_bodyDone⟩
  | answer r hphase hcount hsends hroom => exact ⟨_, .answer hphase hcount hsends hroom, gauge_answer r⟩
  | killed hphase hcount hkill => exact ⟨_, .killed hphase hcount hkill, rfl⟩
  | answered hphase hcount => exact ⟨_, .answered hphase hcount, gauge_answered⟩

private theorem dump_eq_filter {sockets : List ι} (h : sockets.Nodup) :
    dump i sockets = sockets.filter (· ≠ i) := by
  induction sockets with
  | nil => rfl
  | cons j sockets ih =>
    obtain ⟨hnot, hnodup⟩ := List.nodup_cons.mp h
    by_cases hj : j = i
    · subst hj
      have hrest : sockets.filter (· ≠ j) = sockets := by
        apply List.filter_eq_self.mpr
        intro k hk
        simpa using fun heq : k = j => hnot (heq ▸ hk)
      simp only [dump, if_true, List.filter_cons, ne_eq, not_true_eq_false, decide_false,
        Bool.false_eq_true, if_false]
      exact hrest.symm
    · simp [dump, hj, ih hnodup]

theorem Turn.others (hturn : Turn i p s t) {j : ι} (hj : j ≠ i) : t.server.conn j = s.server.conn j := by
  have hset (st : Server ι) (c : Conn) : (st.setConn i c).conn j = st.conn j := Function.update_of_ne hj _ _
  cases hturn with
  | @ready st sockets hphase hopen =>
    simp only [Server.next]
    split
    · exact hset st _
    · exact hset st _
  | @readHead st sockets hphase hcount => exact hset st _
  | @headDone st sockets hphase hcount =>
    simp only [Server.next]
    split
    · rfl
    · exact hset st _
  | @readBody st sockets hphase hcount => exact hset st _
  | @bodyDone st sockets hphase hcount => rfl
  | @answer st sockets r hphase hcount hsends hroom => exact hset st _
  | @killed st sockets hphase hcount hkill => rfl
  | @answered st sockets hphase hcount => rfl

theorem Turn.sockets (hp : Gone p.result) (h : (Ping.gauge i s.server).At i) (hturn : Turn i p s t) :
    t.sockets = if (t.server.conn i).isOpen = true then s.sockets else dump i s.sockets := by
  have hopen : (s.server.conn i).isOpen = true := (hturn.gauge hp).open_ h
  have hkept {st' : Server ι} {g : Gauge ι} (hg : Ping.gauge i st' = g) (hsame : g.isOpen = true) :
      s.sockets = if (st'.conn i).isOpen = true then s.sockets else dump i s.sockets := by
    have hstill : (Ping.gauge i st').isOpen = true := hg ▸ hsame
    exact (if_pos hstill).symm
  cases hturn with
  | @ready st sockets hphase hopen => rfl
  | @readHead st sockets hphase hcount => exact hkept (gauge_readHead hp.bytes) hopen
  | @headDone st sockets hphase hcount =>
    by_cases hsize : (Ping.gauge i st).messageSize < 18
    · exact hkept (gauge_headShort hsize) hopen
    · exact hkept (gauge_headDone hsize) hopen
  | @readBody st sockets hphase hcount => exact hkept (gauge_readBody hp.bytes) hopen
  | @bodyDone st sockets hphase hcount => exact hkept gauge_bodyDone hopen
  | @answer st sockets r hphase hcount hsends hroom => exact hkept (gauge_answer r) hopen
  | @killed st sockets hphase hcount hkill => exact (if_pos hopen).symm
  | @answered st sockets hphase hcount => exact hkept gauge_answered hopen

/-- The server is somewhere in its handling of an open connection, and the sockets in its list are
different ones. -/
structure Handling (i : ι) (s : Listed ι) : Prop where
  at_ : (gauge i s.server).At i
  isOpen : (s.server.conn i).isOpen = true
  nodup : s.sockets.Nodup

/-- What the steps at a connection keep. -/
structure Kept (i : ι) (s t : Listed ι) : Prop where
  at_ : (gauge i t.server).At i
  others : ∀ j, j ≠ i → t.server.conn j = s.server.conn j
  sockets : t.sockets = if (t.server.conn i).isOpen = true then s.sockets else s.sockets.filter (· ≠ i)

theorem Handling.kept (h : Handling i s) (hp : Gone p.result) (hrun : Relation.ReflTransGen (Turn i p) s t) :
    Kept i s t := by
  apply run_invariant (Kept i s) hrun
  · exact ⟨h.at_, fun _ _ => rfl, (if_pos h.isOpen).symm⟩
  · intro t u hkept hturn
    have hopen : (t.server.conn i).isOpen = true := (hturn.gauge hp).open_ hkept.at_
    have hsame : t.sockets = s.sockets := hkept.sockets.trans (if_pos hopen)
    constructor
    · exact (hturn.gauge hp).at_ hkept.at_
    · intro j hj
      rw [hturn.others hj, hkept.others j hj]
    · rw [hturn.sockets hp hkept.at_, hsame, dump_eq_filter h.nodup]

/-- The server is on the way to the end. -/
structure Clearing (i : ι) (p : Peer) (s : Listed ι) : Prop where
  at_ : (gauge i s.server).At i
  clears : (gauge i s.server).isOpen = true → (gauge i s.server).Clears p

theorem Clearing.turn (hp : Gone p.result) (h : Clearing i p s) (hturn : Turn i p s t) :
    Clearing i p t ∧ (gauge i t.server).stepsLeft p < (gauge i s.server).stepsLeft p := by
  have hgauge := hturn.gauge hp
  have hclears := h.clears (hgauge.open_ h.at_)
  exact ⟨⟨hgauge.at_ h.at_, hgauge.clears hp hclears⟩, hgauge.stepsLeft_lt hp h.at_ hclears⟩

theorem Clearing.closed (hp : Gone p.result) (h : Clearing i p s) (hlast : ∀ t, ¬ Turn i p s t) :
    (s.server.conn i).isOpen = false := by
  apply Bool.eq_false_of_not_eq_true
  intro hopen
  have hrunning : (gauge i s.server).phase ≠ .crashed := by
    intro hcrashed
    have hclears := h.clears hopen
    simp only [Gauge.Clears, hcrashed] at hclears
  obtain ⟨g, hturn⟩ := h.at_.turn hopen hrunning p
  obtain ⟨t, hturn', -⟩ := hturn.lift hp
  exact hlast t hturn'

/-- `main` of the client at its first call of `recv` for a message, or in the loop after it. -/
inductive Awaiting
  | first (c : Client)
  | rest (c : Client)

namespace Awaiting

/-- A call of `recv` that returns `r`. -/
inductive Turn (r : RecvResult) : Awaiting → Awaiting → Prop
  | first (c : Client) : Turn r (.first c) (.rest (c.firstRecv r))
  | rest {c : Client} (hcount : c.receiveCnt < c.size.toNat) : Turn r (.rest c) (.rest (c.nextRecv r))

def client : Awaiting → Client
  | .first c => c
  | .rest c => c

def Arrived : Awaiting → Prop
  | .first _ => False
  | .rest c => (c.size.toNat : Int) ≤ c.receiveCnt

variable {r : RecvResult} {s : Awaiting}

theorem exists_turn (hr : Gone r) (hsize : 18 ≤ s.client.size.toNat) (h : ¬ s.Arrived) :
    ∃ t, Turn r s t ∧ 18 ≤ t.client.size.toNat ∧ ¬ t.Arrived := by
  have hvalue := hr.value_le
  cases s with
  | first c =>
    refine ⟨_, .first c, hsize, ?_⟩
    have hsize' : 18 ≤ c.size.toNat := hsize
    show ¬ (c.size.toNat : Int) ≤ r.value
    omega
  | rest c =>
    have hcount : c.receiveCnt < c.size.toNat := Int.not_le.mp h
    refine ⟨_, .rest hcount, hsize, ?_⟩
    show ¬ (c.size.toNat : Int) ≤ c.receiveCnt + r.value
    omega

end Awaiting

end Comp556.Ping
