import Comp556.Simulator.ConfigChecks

/-!
# The text of a configuration

A configuration as its author writes it down, and the configuration that `init` makes of it.
-/

namespace Comp556.Sim

open Text

/-- A link and its fields, in the order in which they are read. -/
structure LinkLine where
  linkFrom : UInt16
  linkTo : UInt16
  delay : Option Text
  cost : Option Text
  prob : Option Text

inductive EventKind where
  | linkdying (src dst : UInt16)
  | linkcomingup (src dst : UInt16)
  | xmit (src dst : UInt16)
  | changedelay (src dst : UInt16) (newdelay : Text)
  | stop

/-- An event, with as many blanks after its time as its author likes. -/
structure EventLine where
  time : Text
  gap : Nat
  kind : EventKind

/-- The lines of nodes, the links and the events. -/
structure Description where
  nodes : List (List UInt16)
  links : List LinkLine
  events : List EventLine

def pairText (src dst : UInt16) : Text :=
  "(".toList ++ (decimal src.toNat ++ (",".toList ++ (decimal dst.toNat ++ ")".toList)))

def fieldText (keyword : Text) : Option Text → Text
  | none => []
  | some value => " ".toList ++ (keyword ++ (" ".toList ++ value))

def LinkLine.text (l : LinkLine) : Text :=
  pairText l.linkFrom l.linkTo ++ (fieldText "delay".toList l.delay ++
    (fieldText "cost".toList l.cost ++ fieldText "prob".toList l.prob))

def blanks (gap : Nat) : Text := ' ' :: List.replicate gap ' '

def eventText (time : Text) (gap : Nat) (keyword rest : Text) : Text :=
    time ++ (blanks gap ++ (keyword ++ rest))

def EventLine.text : EventLine → Text
  | ⟨time, gap, .linkdying src dst⟩ => eventText time gap "linkdying".toList (" ".toList ++ pairText src dst)
  | ⟨time, gap, .linkcomingup src dst⟩ => eventText time gap "linkcomingup".toList
      (" ".toList ++ pairText src dst)
  | ⟨time, gap, .xmit src dst⟩ => eventText time gap "xmit".toList (" ".toList ++ pairText src dst)
  | ⟨time, gap, .changedelay src dst newdelay⟩ =>
    eventText time gap "changedelay".toList (" ".toList ++ (pairText src dst ++ newdelay))
  | ⟨time, gap, .stop⟩ => eventText time gap "end".toList []

def nodesText (ids : List UInt16) : Text := " ".toList.intercalate (ids.map fun id => decimal id.toNat)

variable (layout : Layout UInt16) (atof : Atof) (fresh : Memory)

namespace Description

variable (d : Description)

def nodeTable : Table UInt16 Unit := d.nodes.flatten.foldl (fun nodes id => nodes.insert layout id ()) .empty

def nodeAt (id : UInt16) : Nat := (d.nodeTable layout).keys.idxOf id

def linkAt (src dst : UInt16) : Nat :=
  ((d.links.zipIdx.reverse.find? fun e =>
    equalPair (ends (e.1.linkFrom, e.1.linkTo)) (ends (src, dst))).map Prod.snd).getD d.links.length

def link (l : LinkLine) : Link :=
  ⟨true, l.delay.elim defaultDelay atof.millis, l.prob.elim defaultProb atof.prob, d.nodeAt layout l.linkFrom,
    d.nodeAt layout l.linkTo⟩

def event (e : EventLine) : Option (UInt32 × ConfigEvent) :=
  match e.kind with
  | .linkdying src dst => some (atof.millis e.time, .linkDie (d.linkAt src dst))
  | .linkcomingup src dst => some (atof.millis e.time, .linkComeUp (d.linkAt src dst))
  | .xmit src dst =>
      some (atof.millis e.time, .xmitPktEndToEnd (d.nodeAt layout src) (dataPacket fresh (src, dst)))
  | .changedelay src dst newdelay =>
    some (atof.millis e.time, .changeDelay (d.linkAt src dst) (atof.millis newdelay))
  | .stop => none

/-- The time of the last `end`. -/
def stopTime : UInt32 :=
  d.events.foldl (fun t e => match e.kind with
    | .stop => atof.millis e.time
    | _ => t) 0

def config : Config where
  nodes := (d.nodeTable layout).keys
  links := d.links.map (d.link layout atof)
  events := d.events.filterMap (d.event layout atof fresh)
  stopTime := d.stopTime atof

end Description

/-- A number in decimal notation. -/
structure IsNumber (s : Text) : Prop where
  nonempty : s ≠ []
  chars : ∀ c ∈ s, c.isDigit ∨ c = '.'

instance (s : Text) : Decidable (IsNumber s) :=
  have : Decidable (∀ c ∈ s, c.isDigit ∨ c = '.') := List.decidableBAll (fun c => c.isDigit ∨ c = '.') s
  decidable_of_iff (s ≠ [] ∧ ∀ c ∈ s, c.isDigit ∨ c = '.')
    ⟨fun ⟨nonempty, chars⟩ => ⟨nonempty, chars⟩, fun ⟨nonempty, chars⟩ => ⟨nonempty, chars⟩⟩

theorem not_mem_decimal {c : Char} (h : c.isDigit = false) (n : Nat) : c ∉ decimal n := by
  intro hc
  rw [isDigit_of_mem_decimal hc] at h
  cases h

theorem IsNumber.not_mem {s : Text} (hs : IsNumber s) {c : Char} (h : c.isDigit = false) (hpoint : c ≠ '.') :
    c ∉ s := by
  intro hc
  rcases hs.chars c hc with hdigit | heq
  · rw [hdigit] at h
    cases h
  · exact hpoint heq

/-- Neither end of the text is a blank, and there is no carriage return in it. -/
structure Tight (s : Text) : Prop where
  first : s.head? ≠ some ' '
  last : s.getLast? ≠ some ' '
  inside : '\r' ∉ s

theorem tight_of_not_mem {s : Text} (hblank : ' ' ∉ s) (hreturn : '\r' ∉ s) : Tight s where
  first h := hblank (List.mem_of_head? h)
  last h := hblank (List.mem_of_getLast? h)
  inside := hreturn

theorem Tight.trim {s : Text} (h : Tight s) : trim s = s := by
  have hfirst : s.dropWhile (· = ' ') = s := by
    cases s with
    | nil => rfl
    | cons c s =>
      have hc : c ≠ ' ' := fun heq => h.first (by rw [heq]; rfl)
      simp [hc]
  rw [Sim.trim, List.erase_of_not_mem h.inside, hfirst, List.rdropWhile_eq_self_iff]
  intro hne hlast
  exact h.last (by rw [List.getLast?_eq_some_getLast hne, of_decide_eq_true hlast])

theorem tight_append_number {s v : Text} {c : Char} (hhead : s.head? = some c) (hblank : c ≠ ' ')
    (hreturn : '\r' ∉ s) (hv : IsNumber v) : Tight (s ++ v) where
  first := by
    obtain ⟨s, rfl⟩ := List.head?_eq_some_iff.mp hhead
    exact fun heq => hblank (Option.some.inj heq)
  last := by
    rw [List.getLast?_append_of_ne_nil _ hv.nonempty]
    exact fun heq => hv.not_mem (by decide) (by decide) (List.mem_of_getLast? heq)
  inside := by
    simp [hreturn, hv.not_mem]

theorem IsNumber.trim {s : Text} (h : IsNumber s) : trim s = s :=
  Tight.trim (tight_of_not_mem (h.not_mem (by decide) (by decide)) (h.not_mem (by decide) (by decide)))

theorem trim_cons_blank (s : Text) : trim (' ' :: s) = trim s := by
  rw [trim, List.erase_cons_tail (by decide), List.dropWhile_cons_of_pos (by decide), trim]

theorem trim_sublist (s : Text) : (trim s).Sublist s :=
  (List.rdropWhile_prefix _ _).sublist.trans ((List.dropWhile_suffix _).sublist.trans List.erase_sublist)

theorem trim_infix {s : Text} (h : '\r' ∉ s.dropLast) : trim s <:+: s := by
  have herase : s.erase '\r' <:+: s := by
    rcases List.eq_nil_or_concat s with rfl | ⟨s, c, rfl⟩
    · exact List.infix_rfl
    · rw [List.concat_eq_append, List.dropLast_concat] at h
      rw [List.concat_eq_append, List.erase_append_right _ h]
      by_cases hc : c = '\r'
      · rw [hc, List.erase_cons_head, List.append_nil]
        exact (List.prefix_append s _).isInfix
      · rw [List.erase_of_not_mem (mt List.mem_singleton.mp (Ne.symm hc))]
  exact (List.rdropWhile_prefix _ _).isInfix.trans ((List.dropWhile_suffix _).isInfix.trans herase)

section Positions

variable {before skipped after s : Text} {n : Nat}

theorem toNat_ofNat (h : n < 2 ^ 63) : (UInt64.ofNat n).toNat = n :=
  UInt64.toNat_ofNat_of_lt' (Nat.lt_trans h (by decide))

theorem toNat_ofNat_succ (h : n < 2 ^ 63) : (UInt64.ofNat n + 1).toNat = n + 1 := by
  rw [UInt64.toNat_add, toNat_ofNat h]
  change (n + 1) % 2 ^ 64 = n + 1
  omega

theorem substr_append {pos count : UInt64} (hpos : pos.toNat = before.length)
    (hcount : count.toNat = s.length) :
    (before ++ (s ++ after)).substr pos count = s := by
  rw [substr, hpos, hcount, List.drop_left, List.take_left]

theorem textAfter_append (hshort : (before ++ (skipped ++ after)).length < 2 ^ 63) :
    textAfter (before ++ (skipped ++ after)) (UInt64.ofNat before.length) (UInt64.ofNat skipped.length) =
      trim after := by
  rw [List.length_append, List.length_append] at hshort
  have hbefore : (UInt64.ofNat before.length).toNat = before.length := toNat_ofNat (by omega)
  have hskipped : (UInt64.ofNat skipped.length).toNat = skipped.length := toNat_ofNat (by omega)
  have hsize :
      (Text.size (before ++ (skipped ++ after))).toNat = before.length + (skipped.length + after.length) := by
    rw [Text.size, List.length_append, List.length_append]
    exact toNat_ofNat (by omega)
  have hrest : (before ++ (skipped ++ after)).substr
      (UInt64.ofNat before.length + UInt64.ofNat skipped.length)
      (Text.size (before ++ (skipped ++ after)) - UInt64.ofNat before.length - UInt64.ofNat skipped.length) =
        after := by
    have hjoined : before ++ (skipped ++ after) = (before ++ skipped) ++ (after ++ []) := by simp
    rw [congrArg (fun t : Text => t.substr _ _) hjoined]
    apply substr_append
    · rw [UInt64.toNat_add, hbefore, hskipped, List.length_append]
      omega
    · rw [UInt64.toNat_sub, UInt64.toNat_sub, hsize, hbefore, hskipped]
      omega
  rw [textAfter, hrest]

theorem int_decimal (id : UInt16) (tail : Text) (hblank : ' ' ∉ tail) (hreturn : '\r' ∉ tail)
    (htail : ∀ c ∈ tail.head?, ¬ c.isDigit) : int (trim (decimal id.toNat ++ tail)) = .ok (id.toNat : Int) := by
  have htight : Tight (decimal id.toNat ++ tail) := by
    apply tight_of_not_mem
    · simp [hblank, not_mem_decimal]
    · simp [hreturn, not_mem_decimal]
  have hlt := id.toNat_lt
  rw [htight.trim, int, atoi_decimal (by omega) htail]
  rfl

theorem length_pairText (src dst : UInt16) :
    (pairText src dst).length = 1 + (decimal src.toNat).length + 1 + (decimal dst.toNat).length + 1 := by
  simp [pairText]
  omega

theorem pairText_positions {front : Text} (rest : Text) (src dst : UInt16)
    (hfront : '(' ∉ front ∧ ',' ∉ front ∧ ')' ∉ front) :
    let temp := front ++ (pairText src dst ++ rest)
    temp.find "(".toList = UInt64.ofNat front.length ∧
      temp.find ",".toList = UInt64.ofNat (front.length + 1 + (decimal src.toNat).length) ∧
      temp.find ")".toList =
        UInt64.ofNat (front.length + 1 + (decimal src.toNat).length + 1 + (decimal dst.toNat).length) := by
  obtain ⟨hopen, hcomma, hclose⟩ := hfront
  refine ⟨?_, ?_, ?_⟩
  · have htext : front ++ (pairText src dst ++ rest) = front ++ ("(".toList ++
        (decimal src.toNat ++ (",".toList ++ (decimal dst.toNat ++ (")".toList ++ rest))))) := by simp
          [pairText]
    rw [htext]
    exact find_append rfl hopen
  · have htext : front ++ (pairText src dst ++ rest) = (front ++ ("(".toList ++ decimal src.toNat)) ++
        (",".toList ++ (decimal dst.toNat ++ (")".toList ++ rest))) := by simp [pairText]
    rw [htext, find_append (c := ',') rfl (by simp [hcomma, not_mem_decimal])]
    congr 1
    simp
    omega
  · have htext : front ++ (pairText src dst ++ rest) = (front ++ ("(".toList ++ (decimal src.toNat ++
        (",".toList ++ decimal dst.toNat)))) ++ (")".toList ++ rest) := by simp [pairText]
    rw [htext, find_append (c := ')') rfl (by simp [hclose, not_mem_decimal])]
    congr 1
    simp
    omega

private theorem substr_src (front rest : Text) (src dst : UInt16)
    (hshort : (front ++ (pairText src dst ++ rest)).length < 2 ^ 63) :
    (front ++ (pairText src dst ++ rest)).substr (UInt64.ofNat front.length + 1)
      (UInt64.ofNat (front.length + 1 + (decimal src.toNat).length) - 1) =
        decimal src.toNat ++ (",".toList ++ (decimal dst.toNat ++ (")".toList ++ rest))).take front.length := by
  have htext : front ++ (pairText src dst ++ rest) = (front ++ "(".toList) ++ (decimal src.toNat ++
      (",".toList ++ (decimal dst.toNat ++ (")".toList ++ rest)))) := by simp [pairText]
  rw [List.length_append, List.length_append, length_pairText] at hshort
  have hpos : (UInt64.ofNat front.length + 1).toNat = (front ++ "(".toList).length := by
    rw [toNat_ofNat_succ (by omega), List.length_append]
    rfl
  have hcount : (UInt64.ofNat (front.length + 1 + (decimal src.toNat).length) - 1).toNat =
      front.length + (decimal src.toNat).length := by
    rw [UInt64.toNat_sub, toNat_ofNat (by omega)]
    change (2 ^ 64 - 1 + _) % 2 ^ 64 = _
    omega
  rw [substr, hpos, hcount, htext, List.drop_left, List.take_append, List.take_of_length_le (by omega),
    Nat.add_sub_cancel]

private theorem substr_dst (front rest : Text) (src dst : UInt16)
    (hshort : (front ++ (pairText src dst ++ rest)).length < 2 ^ 63) :
    (front ++ (pairText src dst ++ rest)).substr
      (UInt64.ofNat (front.length + 1 + (decimal src.toNat).length) + 1)
      (UInt64.ofNat (front.length + 1 + (decimal src.toNat).length + 1 + (decimal dst.toNat).length) -
        UInt64.ofNat (front.length + 1 + (decimal src.toNat).length) - 1) = decimal dst.toNat := by
  have htext :
      front ++ (pairText src dst ++ rest) = (front ++ ("(".toList ++ (decimal src.toNat ++ ",".toList))) ++
      (decimal dst.toNat ++ (")".toList ++ rest)) := by simp [pairText]
  rw [List.length_append, List.length_append, length_pairText] at hshort
  rw [congrArg (fun t : Text => t.substr _ _) htext]
  apply substr_append
  · rw [toNat_ofNat_succ (by omega)]
    simp
    omega
  · rw [UInt64.toNat_sub, UInt64.toNat_sub, toNat_ofNat (by omega), toNat_ofNat (by omega)]
    simp
    omega

theorem readPair_eq (front rest : Text) (src dst : UInt16) (hfront : '(' ∉ front ∧ ',' ∉ front ∧ ')' ∉ front)
    (hrest : ' ' ∉ rest ∧ '\r' ∉ rest) (hshort : (front ++ (pairText src dst ++ rest)).length < 2 ^ 63) :
    readPair (front ++ (pairText src dst ++ rest)) = .ok (ends (src, dst)) := by
  obtain ⟨hopen, hcomma, hclose⟩ := pairText_positions rest src dst hfront
  have hblank : ' ' ∉ ",".toList ++ (decimal dst.toNat ++ (")".toList ++ rest)) := by
    simp [hrest.1, not_mem_decimal]
  have hreturn : '\r' ∉ ",".toList ++ (decimal dst.toNat ++ (")".toList ++ rest)) := by
    simp [hrest.2, not_mem_decimal]
  have hhead : ∀ c ∈ ((",".toList ++ (decimal dst.toNat ++ (")".toList ++ rest))).take front.length).head?,
      ¬ c.isDigit := by
    cases front.length with
    | zero => simp
    | succ n => simp
  have hfirst :=
    int_decimal src _ (fun h => hblank (List.mem_of_mem_take h)) (fun h => hreturn (List.mem_of_mem_take h))
    hhead
  have hsecond := int_decimal dst [] (by simp) (by simp) (by simp)
  rw [List.append_nil] at hsecond
  unfold readPair
  dsimp only
  rw [hopen, hcomma, hclose, substr_src front rest src dst hshort, substr_dst front rest src dst hshort,
    hfirst, hsecond]
  rfl

theorem substr_after_pair (front rest : Text) (src dst : UInt16)
    (hfront : '(' ∉ front ∧ ',' ∉ front ∧ ')' ∉ front)
    (hshort : (front ++ (pairText src dst ++ rest)).length < 2 ^ 63) :
    (front ++ (pairText src dst ++ rest)).substr ((front ++ (pairText src dst ++ rest)).find ")".toList + 1)
      npos =
      rest := by
  obtain ⟨-, -, hclose⟩ := pairText_positions rest src dst hfront
  have htext : front ++ (pairText src dst ++ rest) = (front ++ pairText src dst) ++ rest := by simp
  have hlength : (front ++ pairText src dst).length = front.length + 1 + (decimal src.toNat).length + 1 +
      (decimal dst.toNat).length + 1 := by
    rw [List.length_append, length_pairText]
    omega
  have hpos : ((front ++ (pairText src dst ++ rest)).find ")".toList + 1).toNat =
    (front ++ pairText src dst).length := by
    rw [htext, List.length_append] at hshort
    rw [hclose, toNat_ofNat_succ (by omega), hlength]
  have hfits : rest.length ≤ npos.toNat := by
    rw [htext, List.length_append] at hshort
    change rest.length ≤ 2 ^ 64 - 1
    omega
  rw [substr, hpos, htext, List.drop_left, List.take_of_length_le hfits]

end Positions

end Comp556.Sim
