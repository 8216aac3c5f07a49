import Comp556.Simulator.ConfigFile
import Comp556.Simulator.Routers

/-!
# What a configuration file comes to

Links join nodes that are there, links of events are links of the file or null, and the packets of `xmit`
events are data packets. A file without null pointers, loops and parallel links can be simulated.
-/

namespace Comp556.Sim

open Text

variable {layout : Layout UInt16} {atof : Atof} {fresh : Memory} {file line header temp : Text}
    {lines : List Text}
variable {p p' : Parsed} {nodes : Table UInt16 Unit} {failure : Failure} {turns : Nat} {terminated : Bool}

section Except

variable {E A B : Type} {x : Except E A} {f : A → Except E B} {b : B} {e : E}

theorem bind_eq_ok : x.bind f = .ok b ↔ ∃ a, x = .ok a ∧ f a = .ok b := by
  cases x with
  | ok a => simp [Except.bind]
  | error e => simp [Except.bind]

private theorem bind_eq_error : x.bind f = .error e ↔ x = .error e ∨ ∃ a, x = .ok a ∧ f a = .error e := by
  cases x with
  | ok a => simp [Except.bind]
  | error e => simp [Except.bind]

end Except

/-- The link that an event is about. -/
def ConfigEvent.link? : ConfigEvent → Option Nat
  | .changeDelay link _ => some link
  | .linkDie dyingLink => some dyingLink
  | .linkComeUp upcomingLink => some upcomingLink
  | .xmitPktEndToEnd _ _ => none

namespace Parsed

/-- What holds of everything that `init` reads. -/
structure Sound (p : Parsed) : Prop where
  ends : ∀ link ∈ p.links, link.node1 < p.nodeTable.size ∧ link.node2 < p.nodeTable.size
  table : ∀ e ∈ p.linkTable, e.2 < p.links.length
  links : ∀ e ∈ p.events, ∀ l ∈ e.2.link?, l ≤ p.links.length
  nodes : p.nullNode = false → ∀ time src pkt, (time, .xmitPktEndToEnd src pkt) ∈ p.events →
    src < p.nodeTable.size
  data : p.config.SendsData

/-- Different links join different pairs of different nodes, and the links of events are there. -/
structure Wired (p : Parsed) : Prop where
  few : p.nodeTable.size ≤ 16381
  apart : ∀ link ∈ p.links, link.node1 ≠ link.node2
  simple : p.links.Pairwise fun link link' => ¬ link.Joins link'.node1 link'.node2
  known : ∀ e ∈ p.events, e.2.link? ≠ some p.links.length

instance : Decidable p.Wired :=
  have {link link' : Link} : Decidable (link.Joins link'.node1 link'.node2) :=
    inferInstanceAs (Decidable (_ ∨ _))
  decidable_of_iff (p.nodeTable.size ≤ 16381 ∧ (∀ link ∈ p.links, link.node1 ≠ link.node2) ∧
    (p.links.Pairwise fun link link' => ¬ link.Joins link'.node1 link'.node2) ∧
    ∀ e ∈ p.events, e.2.link? ≠ some p.links.length)
    ⟨fun ⟨few, apart, simple, known⟩ => ⟨few, apart, simple, known⟩,
      fun ⟨few, apart, simple, known⟩ => ⟨few, apart, simple, known⟩⟩

private theorem Sound.link_le (h : p.Sound) (ends : Int × Int) : p.link ends ≤ p.links.length := by
  unfold link
  cases hfind : p.linkTable.find? fun e => equalPair e.1 ends with
  | none => exact Nat.le_refl _
  | some e => exact Nat.le_of_lt (h.table e (List.mem_of_find?_eq_some hfind))

theorem Sound.empty (nodes : Table UInt16 Unit) : Sound { Parsed.empty with nodeTable := nodes } where
  ends _ h := by cases h
  table _ h := by cases h
  links _ h := by cases h
  nodes _ _ _ _ h := by cases h
  data _ _ _ h := by cases h

theorem Sound.addLink (h : p.Sound) {ends : Int × Int} {delay : UInt32} {lossProb : ℚ}
    (hadd : p.addLink ends delay lossProb = .ok p') : p'.Sound := by
  unfold Parsed.addLink at hadd
  split at hadd
  · rename_i hends
    obtain rfl := Except.ok.inj hadd
    have hlength (link : Link) : (p.links ++ [link]).length = p.links.length + 1 := List.length_append
    refine ⟨fun link hlink => ?_, fun e he => ?_, fun e he l hl => ?_, h.nodes, h.data⟩
    · rcases List.mem_append.mp hlink with hold | hnew
      · exact h.ends link hold
      · rw [List.mem_singleton.mp hnew]
        exact hends
    · change e.2 < (p.links ++ _).length
      rw [hlength]
      rcases List.mem_cons.mp he with rfl | hold
      · exact Nat.lt_succ_self _
      · exact Nat.lt_succ_of_lt (h.table e hold)
    · change l ≤ (p.links ++ _).length
      rw [hlength]
      exact Nat.le_succ_of_le (h.links e he l hl)
  · cases hadd

private theorem push_eq_ok {time : UInt32} {e : ConfigEvent} (h : p.push temp time e = .ok p') :
    p' = { p with events := p.events ++ [(time, e)] } := by
  unfold push at h
  split at h
  · cases h
  · exact (Except.ok.inj h).symm

private theorem dataPacket_type (pair : UInt16 × UInt16) :
    PacketType.ofCode ((dataPacket fresh pair).block.memory 0) = some .data := by
  rw [dataPacket, Buffer.store16_apply_before _ _ (by omega), Buffer.store16_apply_before _ _ (by omega),
    Buffer.store16_apply_before _ _ (by omega)]
  rfl

/-- What a line of an event adds. -/
inductive EventRead (fresh : Memory) (p : Parsed) : Parsed → Prop
  | link (time : UInt32) (ends : Int × Int) (e : ConfigEvent) (hlink : e.link? = some (p.link ends)) :
      EventRead fresh p { p with events := p.events ++ [(time, e)] }
  | xmit (time : UInt32) (pair : UInt16 × UInt16) :
      EventRead fresh p { (p.xmit fresh pair).1 with events := p.events ++ [(time, (p.xmit fresh pair).2)] }
  | stop (time : UInt32) : EventRead fresh p { p with stopTime := time }

private theorem eventRead_of_readEvent (h : readEvent atof fresh line p = .ok p') : EventRead fresh p p' := by
  unfold readEvent at h
  dsimp only at h
  split at h
  · obtain ⟨pair, -, h⟩ := bind_eq_ok.mp h
    rw [push_eq_ok h]
    exact .link _ pair _ rfl
  split at h
  · obtain ⟨pair, -, h⟩ := bind_eq_ok.mp h
    rw [push_eq_ok h]
    exact .link _ pair _ rfl
  split at h
  · obtain ⟨pair, -, h⟩ := bind_eq_ok.mp h
    rw [push_eq_ok h]
    exact .xmit _ (shorts pair)
  split at h
  · obtain ⟨pair, -, h⟩ := bind_eq_ok.mp h
    rw [push_eq_ok h]
    exact .link _ (Sim.ends (shorts pair)) _ rfl
  split at h
  · obtain rfl := Except.ok.inj h
    exact .stop _
  · cases h

theorem Sound.pushed (h : p.Sound) (time : UInt32) {e : ConfigEvent} {nullNode : Bool}
    (hnull : nullNode = false → p.nullNode = false) (hlink : ∀ l ∈ e.link?, l ≤ p.links.length)
    (hxmit : ∀ src pkt, e = .xmitPktEndToEnd src pkt → (nullNode = false → src < p.nodeTable.size) ∧
      0 < pkt.size.toNat ∧ PacketType.ofCode (pkt.block.memory 0) = some .data) :
    Sound { p with events := p.events ++ [(time, e)], nullNode := nullNode } where
  ends := h.ends
  table := h.table
  links e' he l hl := by
    rcases List.mem_append.mp he with hold | hnew
    · exact h.links e' hold l hl
    · rw [List.mem_singleton.mp hnew] at hl
      exact hlink l hl
  nodes hnodes time' src pkt he := by
    rcases List.mem_append.mp he with hold | hnew
    · exact h.nodes (hnull hnodes) time' src pkt hold
    · obtain ⟨-, heq⟩ := Prod.mk.inj (List.mem_singleton.mp hnew)
      exact (hxmit src pkt heq.symm).1 hnodes
  data time' src pkt he := by
    rcases List.mem_append.mp he with hold | hnew
    · exact h.data time' src pkt hold
    · obtain ⟨-, heq⟩ := Prod.mk.inj (List.mem_singleton.mp hnew)
      exact (hxmit src pkt heq.symm).2

private theorem Sound.eventRead (h : p.Sound) (hread : EventRead fresh p p') : p'.Sound := by
  cases hread with
  | link time ends e hlink =>
    refine h.pushed time (fun hnull => hnull) (fun l hl => ?_) fun src pkt heq => ?_
    · obtain rfl := Option.some.inj (hlink.symm.trans hl)
      exact h.link_le ends
    · rw [heq] at hlink
      cases hlink
  | xmit time pair =>
    refine h.pushed time (fun hnull => ?_) (fun l hl => ?_) fun src pkt heq => ?_
    · exact (Bool.or_eq_false_iff.mp hnull).1
    · cases hl
    · obtain ⟨rfl, rfl⟩ := ConfigEvent.xmitPktEndToEnd.inj heq
      refine ⟨fun hnull => ?_, Nat.zero_lt_succ 7, dataPacket_type pair⟩
      have hthere := of_decide_eq_false (Bool.or_eq_false_iff.mp hnull).2
      exact (not_not.mp hthere).1
  | stop time => exact ⟨h.ends, h.table, h.links, h.nodes, h.data⟩

theorem Sound.readLink (h : p.Sound) (hread : Sim.readLink atof line p = .ok p') : p'.Sound := by
  unfold Sim.readLink at hread
  dsimp only at hread
  split at hread
  · cases hread
  split at hread
  · cases hread
  · obtain ⟨ends, -, hadd⟩ := bind_eq_ok.mp hread
    exact h.addLink hadd

end Parsed

private theorem readSection_invariant {read : Text → Parsed → Except Failure Parsed} {P : Parsed → Prop}
    (hstep : ∀ line p p', read line p = .ok p' → P p → P p') {next : Option (Text × List Text)}
    (h : readSection read lines p = .ok (p', next)) (hp : P p) : P p' := by
  induction lines generalizing p with
  | nil =>
    obtain ⟨rfl, -⟩ := Prod.mk.inj (Except.ok.inj h)
    exact hp
  | cons line lines ih =>
    unfold readSection at h
    dsimp only at h
    split at h
    · exact ih h hp
    split at h
    · obtain ⟨rfl, -⟩ := Prod.mk.inj (Except.ok.inj h)
      exact hp
    · obtain ⟨mid, hread, hrest⟩ := bind_eq_ok.mp h
      exact ih hrest (hstep _ p mid hread hp)

private theorem readIfNamed_invariant {read : Text → Parsed → Except Failure Parsed} {P : Parsed → Prop}
    {name : Text}
    (hstep : ∀ line p p', read line p = .ok p' → P p → P p') {before next : Option (Text × List Text)}
    (h : readIfNamed name read p before = .ok (p', next)) (hp : P p) : P p' := by
  cases before with
  | none =>
    obtain ⟨rfl, -⟩ := Prod.mk.inj (Except.ok.inj h)
    exact hp
  | some at_ =>
    unfold readIfNamed at h
    dsimp only at h
    split at h
    · exact readSection_invariant hstep h hp
    · obtain ⟨rfl, -⟩ := Prod.mk.inj (Except.ok.inj h)
      exact hp

private theorem init_sound (h : init layout atof fresh turns file = .ok p) : p.Sound := by
  unfold init at h
  dsimp only at h
  split at h
  · obtain rfl := Except.ok.inj h
    exact .empty .empty
  split at h
  · obtain rfl := Except.ok.inj h
    exact .empty .empty
  · obtain ⟨⟨nodes, header, lines⟩, -, h⟩ := bind_eq_ok.mp h
    obtain ⟨⟨mid, next⟩, hlinks, h⟩ := bind_eq_ok.mp h
    obtain ⟨⟨last, _⟩, hevents, h⟩ := bind_eq_ok.mp h
    obtain rfl := Except.ok.inj h
    have hmid :=
      readIfNamed_invariant (fun line p p' hread (hp : p.Sound) => hp.readLink hread) hlinks (.empty nodes)
    exact readIfNamed_invariant (fun line p p' hread (hp : p.Sound) =>
      hp.eventRead (Parsed.eventRead_of_readEvent hread))
      hevents hmid

private theorem Parsed.Sound.wellFormed (h : p.Sound) (hnull : p.nullNode = false) (hwired : p.Wired) :
    p.config.WellFormed where
  ids := p.nodeTable.nodup_keys
  few := p.nodeTable.length_keys ▸ hwired.few
  ends link hlink := by
    change link.node1 < p.nodeTable.keys.length ∧ link.node2 < p.nodeTable.keys.length ∧ _
    rw [Table.length_keys]
    exact ⟨(h.ends link hlink).1, (h.ends link hlink).2, hwired.apart link hlink⟩
  simple ln ln' link link' a b hlink hlink' hjoins hjoins' := by
    have hsame : link.Joins link'.node1 link'.node2 := by
      rcases hjoins' with ⟨rfl, rfl⟩ | ⟨rfl, rfl⟩
      · exact hjoins
      · exact hjoins.symm
    have hsame' : link'.Joins link.node1 link.node2 := by
      rcases hjoins with ⟨rfl, rfl⟩ | ⟨rfl, rfl⟩
      · exact hjoins'
      · exact hjoins'.symm
    obtain ⟨hlt, rfl⟩ := List.getElem?_eq_some_iff.mp hlink
    obtain ⟨hlt', rfl⟩ := List.getElem?_eq_some_iff.mp hlink'
    rcases Nat.lt_trichotomy ln ln' with hless | heq | hmore
    · exact absurd hsame (List.pairwise_iff_getElem.mp hwired.simple ln ln' hlt hlt' hless)
    · exact heq
    · exact absurd hsame' (List.pairwise_iff_getElem.mp hwired.simple ln' ln hlt' hlt hmore)
  names e he := by
    have hthere (l : Nat) (hl : e.2.link? = some l) : l < p.links.length :=
      Nat.lt_of_le_of_ne (h.links e he l hl) fun heq => hwired.known e he (heq ▸ hl)
    obtain ⟨time, e⟩ := e
    cases e with
    | changeDelay l d => exact hthere l rfl
    | linkDie l => exact hthere l rfl
    | linkComeUp l => exact hthere l rfl
    | xmitPktEndToEnd src pkt =>
      have hsrc := h.nodes hnull time src pkt he
      rw [← Table.length_keys] at hsrc
      exact hsrc

/-- A configuration file that `init` reads without entering a null node, and whose links join different
pairs of different nodes and are there for every event about a link, is simulated without ever getting
stuck, by routers whose ports are wired as the links say. -/
theorem file_simulated (hread : init layout atof fresh turns file = .ok p) (hnull : p.nullNode = false)
    (hwired : p.Wired) (queue : EventQueue) (type : ProtocolType) (chances : Nat → Chance) :
    ∃ sim₀, boot queue layout atof fresh chances type turns file = .ok sim₀ ∧
      ∀ turns sim, Simulator.Runs (routingProtocolImpl type) Simulator.anyTurn sim₀ turns sim →
        (sim.ended = false → ∀ chance, (sim.turn (routingProtocolImpl type) chance).isSome) ∧
        ∀ node id, p.config.nodes[node]? = some id → ∃ r,
          sim.nodes[node]? = some ⟨id, p.config.linkVector node, r⟩ ∧
            Router.Attached (p.config.attached node) (p.config.numPorts node) id ∧
            Router.ModeReachable type (p.config.attached node) (p.config.numPorts node) id r := by
  have hsound := init_sound hread
  obtain ⟨sim₀, hstart, hall⟩ :=
    simulator_hosts_routers (hsound.wellFormed hnull hwired) hsound.data queue type chances
  refine ⟨sim₀, ?_, hall⟩
  rw [boot, hread]
  simp [Except.bind, hnull, hstart]

theorem sampleFile_simulated :
    ∃ (p : Parsed) (sim₀ : Simulator .oldestFirst Router), p.config.nodes = [3, 2, 1] ∧ p.stopTime = 200000 ∧
      boot .oldestFirst (.front UInt16) sampleAtof (sampleMemory []) (fun _ => quietChance) .dv 3 sampleFile =
        .ok sim₀ ∧
      (sim₀.ended = false → ∀ chance, (sim₀.turn (routingProtocolImpl .dv) chance).isSome) := by
  have hread : (init (.front UInt16) sampleAtof (sampleMemory []) 3 sampleFile).toOption.any fun p =>
      decide (p.nodeTable.keys = [3, 2, 1] ∧ p.stopTime = 200000 ∧ p.nullNode = false ∧ p.Wired) := by
    decide +kernel
  obtain ⟨p, hp, hchecked⟩ := (Option.any_eq_true _ _).mp hread
  obtain ⟨hkeys, hstop, hnull, hwired⟩ := of_decide_eq_true hchecked
  have hok : init (.front UInt16) sampleAtof (sampleMemory []) 3 sampleFile = .ok p := by
    cases hinit : init (.front UInt16) sampleAtof (sampleMemory []) 3 sampleFile with
    | error failure =>
      rw [hinit] at hp
      cases hp
    | ok p' =>
      rw [hinit] at hp
      rw [Option.some.inj hp]
  obtain ⟨sim₀, hboot, hall⟩ := file_simulated hok hnull hwired .oldestFirst .dv fun _ => quietChance
  exact ⟨p, sim₀, hkeys, hstop, hboot, (hall [] sim₀ .start).1⟩

/-- The loop over the nodes goes on after a line: it has no bracket, and its numbers fit into an `int`. -/
def ReadsOn (layout : Layout UInt16) (line : Text) : Prop :=
  line.find "[".toList = npos ∧ ∃ read, readIds layout line.length line .empty = .ok read

/-- What the loop over a line of nodes leaves of it. -/
def idsLeft (layout : Layout UInt16) (line : Text) : Text :=
  (readIds layout line.length line .empty).toOption.elim [] Prod.snd

/-- The line that the loop over the nodes is given next, and the lines after it. -/
def nextLine (layout : Layout UInt16) (terminated : Bool) (at_ : Text × List Text) : Text × List Text :=
  let next := getline terminated (idsLeft layout at_.1) at_.2
  (trim next.1, next.2)

/-- The lines that the loop over the nodes is given. Where none follow the header, a failed `getline` leaves
nothing or, if no newline follows either, the header. -/
def givenLines (terminated : Bool) (header : Text) : List Text → List Text
  | [] => [trim (if terminated then [] else header)]
  | next :: lines => (next :: lines).map trim

private theorem int_outcome (s : Text) : (∃ n, int s = .ok n) ∨ int s = .error .undefined := by
  unfold int
  cases atoi s with
  | none => exact .inr rfl
  | some n => exact .inl ⟨n, rfl⟩

private theorem readIds_outcome (layout : Layout UInt16) (fuel : Nat) (line : Text)
    (nodes nodes' : Table UInt16 Unit) :
    (∃ read read' rest, readIds layout fuel line nodes = .ok (read, rest) ∧
      readIds layout fuel line nodes' = .ok (read', rest)) ∨
      readIds layout fuel line nodes = .error .undefined ∧
      readIds layout fuel line nodes' = .error .undefined := by
  induction fuel generalizing line nodes nodes' with
  | zero => exact .inl ⟨nodes, nodes', line, rfl, rfl⟩
  | succ fuel ih =>
    simp only [readIds]
    split
    · exact .inl ⟨nodes, nodes', line, rfl, rfl⟩
    split
    · rcases int_outcome (line.substr 0 (line.find " ".toList)) with ⟨n, hn⟩ | hn
      · rw [hn]
        exact ih _ _ _
      · rw [hn]
        exact .inr ⟨rfl, rfl⟩
    · rcases int_outcome (trim line) with ⟨n, hn⟩ | hn
      · rw [hn]
        exact .inl ⟨_, _, line, rfl, rfl⟩
      · rw [hn]
        exact .inr ⟨rfl, rfl⟩

private theorem readNodes_turn (layout : Layout UInt16) (terminated : Bool) (turns : Nat) (line : Text)
    (lines : List Text) (nodes : Table UInt16 Unit) :
    (ReadsOn layout line ∧ ∃ nodes', readNodes layout terminated (turns + 1) line lines nodes =
      readNodes layout terminated turns (nextLine layout terminated (line, lines)).1
        (nextLine layout terminated (line, lines)).2 nodes') ∨
      ¬ ReadsOn layout line ∧
      readNodes layout terminated (turns + 1) line lines nodes ≠ .error .unfinished := by
  rw [readNodes]
  by_cases hopen : line.find "[".toList = npos
  · rw [if_neg (not_not.mpr hopen)]
    rcases readIds_outcome layout line.length line nodes .empty with ⟨read, read', rest, hread, hread'⟩ |
      ⟨hread, hread'⟩
    · have hleft : idsLeft layout line = rest := by
        rw [idsLeft, hread']
        rfl
      refine .inl ⟨⟨hopen, _, hread'⟩, read, ?_⟩
      rw [hread, nextLine, hleft]
      rfl
    · refine .inr ⟨?_, ?_⟩
      · rintro ⟨-, read, hok⟩
        rw [hread'] at hok
        cases hok
      · rw [hread]
        rintro ⟨⟩
  · rw [if_pos hopen]
    refine .inr ⟨fun h => hopen h.1, ?_⟩
    rintro ⟨⟩

private theorem readNodes_unfinished_iff {layout : Layout UInt16} {terminated : Bool} (turns : Nat)
    (line : Text) (lines : List Text) (nodes : Table UInt16 Unit) :
    readNodes layout terminated turns line lines nodes = .error .unfinished ↔
      ∀ k < turns, ReadsOn layout ((nextLine layout terminated)^[k] (line, lines)).1 := by
  induction turns generalizing line lines nodes with
  | zero => exact iff_of_true rfl fun k hk => absurd hk (Nat.not_lt_zero k)
  | succ turns ih =>
    rcases readNodes_turn layout terminated turns line lines nodes with ⟨hon, nodes', hturn⟩ | ⟨hoff, hturn⟩
    · rw [hturn, ih, Nat.forall_lt_succ_left, Function.iterate_zero_apply, and_iff_right hon]
      exact Iff.rfl
    · exact iff_of_false hturn fun h => hoff (h 0 turns.succ_pos)

/-- Once the lines are read, what was left of the last one is read again and again, unless it ended in a
newline. -/
private theorem forall_nextLine_iff {layout : Layout UInt16} {terminated : Bool} (line : Text)
    (lines : List Text) :
    (∀ k, ReadsOn layout ((nextLine layout terminated)^[k] (line, lines)).1) ↔
      (∀ l ∈ line :: lines.map trim, ReadsOn layout l) ∧
      (terminated = false → ∀ l ∈ (line :: lines.map trim).getLast?,
        ∀ k, ReadsOn layout ((fun l => trim (idsLeft layout l))^[k] l)) := by
  induction lines generalizing line with
  | nil =>
    rw [List.map_nil, List.forall_mem_singleton, List.getLast?_singleton]
    cases terminated with
    | true =>
      have hblank : ReadsOn layout [] := ⟨rfl, _, rfl⟩
      have hfixed (k : Nat) : (nextLine layout true)^[k] ([], []) = ([], []) := Function.iterate_fixed rfl k
      constructor
      · exact fun h => ⟨h 0, nofun⟩
      · rintro ⟨hline, -⟩ (_ | k)
        · exact hline
        · change ReadsOn layout ((nextLine layout true)^[k] ([], [])).1
          rw [hfixed]
          exact hblank
    | false =>
      have hagain (k : Nat) (l : Text) : (nextLine layout false)^[k] (l, []) =
          ((fun l => trim (idsLeft layout l))^[k] l, []) := by
        induction k generalizing l with
        | zero => rfl
        | succ k ih => exact ih _
      simp only [hagain, Option.mem_some_iff, forall_eq', forall_const]
      exact ⟨fun h => ⟨h 0, h⟩, And.right⟩
  | cons next lines ih =>
    have hlast : (line :: (next :: lines).map trim).getLast? = (trim next :: lines.map trim).getLast? :=
      List.getLast?_cons_cons
    rw [hlast, List.forall_mem_cons, and_assoc, List.map_cons, ← ih (trim next)]
    constructor
    · exact fun h => ⟨h 0, fun k => h (k + 1)⟩
    · rintro ⟨hline, hrest⟩ (_ | k)
      · exact hline
      · exact hrest k

private theorem readNodesIfNamed_unfinished_iff :
    (∀ turns, readNodesIfNamed layout terminated turns header lines = .error .unfinished) ↔
      header.find "nodes".toList ≠ npos ∧ (∀ l ∈ givenLines terminated header lines, ReadsOn layout l) ∧
        (terminated = false → ∀ l ∈ (givenLines terminated header lines).getLast?,
          ∀ k, ReadsOn layout ((fun l => trim (idsLeft layout l))^[k] l)) := by
  by_cases hnamed : header.find "nodes".toList = npos
  · refine iff_of_false (fun h => ?_) fun h => h.1 hnamed
    have hread := h 0
    rw [readNodesIfNamed, if_neg (not_not.mpr hnamed)] at hread
    cases hread
  · have hgiven : givenLines terminated header lines =
        trim (getline terminated header lines).1 :: (getline terminated header lines).2.map trim := by
      cases lines with
      | nil => rfl
      | cons next lines => rfl
    rw [and_iff_right hnamed, hgiven, ← forall_nextLine_iff]
    simp only [readNodesIfNamed, if_pos hnamed, readNodes_unfinished_iff]
    exact ⟨fun h k => h (k + 1) k (Nat.lt_succ_self k), fun h _ k _ => h k⟩

private theorem readSection_ne_unfinished {read : Text → Parsed → Except Failure Parsed}
    (hread : ∀ line p, read line p ≠ .error .unfinished) (lines : List Text) (p : Parsed) :
    readSection read lines p ≠ .error .unfinished := by
  induction lines generalizing p with
  | nil => rintro ⟨⟩
  | cons line lines ih =>
    unfold readSection
    dsimp only
    split
    · exact ih p
    split
    · rintro ⟨⟩
    · intro h
      rcases bind_eq_error.mp h with hfirst | ⟨mid, -, hrest⟩
      · exact hread _ p hfirst
      · exact ih mid hrest

private theorem readIfNamed_ne_unfinished {read : Text → Parsed → Except Failure Parsed} {name : Text}
    (hread : ∀ line p, read line p ≠ .error .unfinished) (before : Option (Text × List Text)) :
    readIfNamed name read p before ≠ .error .unfinished := by
  cases before with
  | none => rintro ⟨⟩
  | some at_ =>
    unfold readIfNamed
    dsimp only
    split
    · exact readSection_ne_unfinished hread _ p
    · rintro ⟨⟩

private theorem int_ne_unfinished (s : Text) : int s ≠ .error .unfinished := by
  rcases int_outcome s with ⟨n, hn⟩ | hn
  · rw [hn]
    rintro ⟨⟩
  · rw [hn]
    rintro ⟨⟩

private theorem readEnds_ne_unfinished (link : Text) : readEnds link ≠ .error .unfinished := by
  unfold readEnds
  dsimp only
  split
  · rintro ⟨⟩
  · intro h
    rcases bind_eq_error.mp h with hfirst | ⟨n, -, h⟩
    · exact int_ne_unfinished _ hfirst
    rcases bind_eq_error.mp h with hsecond | ⟨m, -, h⟩
    · exact int_ne_unfinished _ hsecond
    · cases h

private theorem readPair_ne_unfinished (temp : Text) : readPair temp ≠ .error .unfinished := by
  intro h
  rcases bind_eq_error.mp h with hfirst | ⟨n, -, h⟩
  · exact int_ne_unfinished _ hfirst
  rcases bind_eq_error.mp h with hsecond | ⟨m, -, h⟩
  · exact int_ne_unfinished _ hsecond
  · cases h

private theorem readLink_ne_unfinished (line : Text) (p : Parsed) :
    readLink atof line p ≠ .error .unfinished := by
  unfold readLink
  dsimp only
  split
  · rintro ⟨⟩
  split
  · rintro ⟨⟩
  · intro h
    rcases bind_eq_error.mp h with hends | ⟨ends, -, h⟩
    · exact readEnds_ne_unfinished _ hends
    · unfold Parsed.addLink at h
      split at h <;> cases h

private theorem push_ne_unfinished (time : UInt32) (e : ConfigEvent) :
    p.push temp time e ≠ .error .unfinished := by
  unfold Parsed.push
  split <;> rintro ⟨⟩

private theorem readEvent_ne_unfinished (line : Text) (p : Parsed) :
    readEvent atof fresh line p ≠ .error .unfinished := by
  have hpair {temp : Text} {f : Int × Int → Except Failure Parsed} (hf : ∀ pair, f pair ≠ .error .unfinished) :
      (readPair temp).bind f ≠ .error .unfinished := by
    intro h
    rcases bind_eq_error.mp h with hfirst | ⟨pair, -, hrest⟩
    · exact readPair_ne_unfinished _ hfirst
    · exact hf pair hrest
  unfold readEvent
  dsimp only
  split
  · exact hpair fun pair => push_ne_unfinished _ _
  split
  · exact hpair fun pair => push_ne_unfinished _ _
  split
  · exact hpair fun pair => push_ne_unfinished _ _
  split
  · exact hpair fun pair => push_ne_unfinished _ _
  split
  · rintro ⟨⟩
  · rintro ⟨⟩

/-- `init` runs for ever exactly if the file begins with the nodes, and the loop over them goes on after
every line that it is given: those that follow and, if the last one does not end in a newline, what is left
of it, again and again. -/
theorem init_hangs_iff :
    (∀ turns, init layout atof fresh turns file = .error .unfinished) ↔
      ∃ header lines, ((splitLines file).1.dropWhile fun line => trim line = []) = header :: lines ∧
        header.find "[".toList ≠ npos ∧ header.find "nodes".toList ≠ npos ∧
        (∀ l ∈ givenLines (splitLines file).2 header lines, ReadsOn layout l) ∧
        ((splitLines file).2 = false → ∀ l ∈ (givenLines (splitLines file).2 header lines).getLast?,
          ∀ k, ReadsOn layout ((fun l => trim (idsLeft layout l))^[k] l)) := by
  have hsections (turns : Nat) (header : Text) (lines : List Text) :
      readSections layout atof fresh (splitLines file).2 turns header lines = .error .unfinished ↔
        readNodesIfNamed layout (splitLines file).2 turns header lines = .error .unfinished := by
    constructor
    · intro h
      rcases bind_eq_error.mp h with hnodes | ⟨⟨nodes, header, lines⟩, -, h⟩
      · exact hnodes
      rcases bind_eq_error.mp h with hlinks | ⟨⟨mid, next⟩, -, h⟩
      · exact absurd hlinks (readIfNamed_ne_unfinished readLink_ne_unfinished _)
      rcases bind_eq_error.mp h with hevents | ⟨last, -, h⟩
      · exact absurd hevents (readIfNamed_ne_unfinished readEvent_ne_unfinished _)
      · cases h
    · exact fun h => bind_eq_error.mpr (.inl h)
  unfold init
  dsimp only
  cases hfirst : (splitLines file).1.dropWhile fun line => trim line = [] with
  | nil =>
    constructor
    · intro h
      cases h 0
    · rintro ⟨_, _, ⟨⟩, -⟩
  | cons header lines =>
    by_cases hopen : header.find "[".toList = npos
    · simp only [if_pos hopen]
      constructor
      · intro h
        cases h 0
      · rintro ⟨_, _, ⟨⟩, hthere, -⟩
        exact absurd hopen hthere
    · simp only [if_neg hopen, hsections, readNodesIfNamed_unfinished_iff]
      constructor
      · exact fun h => ⟨header, lines, rfl, hopen, h⟩
      · rintro ⟨_, _, ⟨⟩, -, h⟩
        exact h

end Comp556.Sim
