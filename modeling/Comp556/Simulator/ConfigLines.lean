import Comp556.Simulator.ConfigText

/-!
# The lines of a configuration

What `init` makes of the lines of a description, one at a time.
-/

namespace Comp556.Sim

open Text

variable {layout : Layout UInt16} {atof : Atof} {fresh : Memory}

section Events

variable {gap : Nat} {time keyword rest newdelay : Text} {src dst : UInt16} {p : Parsed}

private theorem find_ne_npos {n : Nat} (h : n < 2 ^ 63) : UInt64.ofNat n ≠ npos := by
  intro heq
  have hn := toNat_ofNat h
  rw [heq] at hn
  change 2 ^ 64 - 1 = n at hn
  omega

private theorem not_mem_blanks {c : Char} (h : c ≠ ' ') : c ∉ blanks gap := by
  simp [blanks, h]

private theorem eventText_time (htime : IsNumber time)
    (hshort : (eventText time gap keyword rest).length < 2 ^ 63) :
    (eventText time gap keyword rest).substr 0 ((eventText time gap keyword rest).find " ".toList) = time := by
  have htext : eventText time gap keyword rest =
      time ++ (" ".toList ++ (List.replicate gap ' ' ++ (keyword ++ rest))) := rfl
  have hfind : (eventText time gap keyword rest).find " ".toList = UInt64.ofNat time.length := by
    rw [htext]
    exact find_append rfl (htime.not_mem rfl (by decide))
  rw [eventText, List.length_append] at hshort
  rw [hfind]
  exact substr_front (by omega)

private theorem eventText_find (gap : Nat) (rest : Text) {c : Char} (htime : IsNumber time)
    (hhead : keyword.head? = some c) (hc : c.isDigit = false) (hpoint : c ≠ '.') (hblank : c ≠ ' ') :
    (eventText time gap keyword rest).find keyword = UInt64.ofNat (time ++ blanks gap).length := by
  have htext : eventText time gap keyword rest = (time ++ blanks gap) ++ (keyword ++ rest) := by
    simp [eventText]
  rw [htext, find_append hhead (by simp [not_mem_blanks hblank, htime.not_mem hc hpoint])]

private theorem eventText_after (skipped kept : Text) (hkeyword : keyword = skipped ++ kept)
    (hshort : (eventText time gap keyword rest).length < 2 ^ 63) :
    textAfter (eventText time gap keyword rest) (UInt64.ofNat (time ++ blanks gap).length)
      (UInt64.ofNat skipped.length) = trim (kept ++ rest) := by
  have htext : eventText time gap keyword rest = (time ++ blanks gap) ++ (skipped ++ (kept ++ rest)) := by
    simp [eventText, hkeyword]
  rw [htext] at hshort ⊢
  exact textAfter_append hshort

private theorem push_pairText (front rest : Text) (src dst : UInt16)
    (hfront : '(' ∉ front ∧ ',' ∉ front ∧ ')' ∉ front)
    (hshort : (front ++ (pairText src dst ++ rest)).length < 2 ^ 63) (t : UInt32) (e : ConfigEvent) :
    p.push (front ++ (pairText src dst ++ rest)) t e = .ok { p with events := p.events ++ [(t, e)] } := by
  obtain ⟨hopen, hcomma, hclose⟩ := pairText_positions rest src dst hfront
  rw [List.length_append, List.length_append, length_pairText] at hshort
  have hthere : ¬ ((front ++ (pairText src dst ++ rest)).find "(".toList = npos ∨
      (front ++ (pairText src dst ++ rest)).find ")".toList = npos ∨
      (front ++ (pairText src dst ++ rest)).find ",".toList = npos) := by
    rw [hopen, hcomma, hclose]
    exact not_or.mpr ⟨find_ne_npos (by omega), not_or.mpr ⟨find_ne_npos (by omega), find_ne_npos (by omega)⟩⟩
  rw [Parsed.push, if_neg hthere]

private theorem shorts_ends (pair : UInt16 × UInt16) : shorts (ends pair) = pair := by
  have hshort (n : UInt16) : UInt16.ofInt (n.toNat : Int) = n := by
    apply UInt16.toNat_inj.mp
    have hlt := n.toNat_lt
    rw [UInt16.ofInt, UInt16.toNat_ofNat']
    omega
  exact Prod.ext (hshort pair.1) (hshort pair.2)

private theorem eventText_pair
    (hshort : (eventText time gap keyword (" ".toList ++ pairText src dst)).length < 2 ^ 63) :
    textAfter (eventText time gap keyword (" ".toList ++ pairText src dst))
      (UInt64.ofNat (time ++ blanks gap).length) (UInt64.ofNat keyword.length) = pairText src dst := by
  have htight : Tight (pairText src dst) := by
    apply tight_of_not_mem
    · simp [pairText, not_mem_decimal]
    · simp [pairText, not_mem_decimal]
  rw [eventText_after keyword [] (List.append_nil keyword).symm hshort]
  exact (trim_cons_blank _).trans htight.trim

private theorem readPair_pairText (hshort : (pairText src dst).length < 2 ^ 63) :
    readPair (pairText src dst) = .ok (ends (src, dst)) := by
  have hread := readPair_eq [] [] src dst (by simp) (by simp) (by simpa using hshort)
  simpa using hread

private theorem pairText_short
    (hshort : (eventText time gap keyword (" ".toList ++ pairText src dst)).length < 2 ^ 63) :
    (pairText src dst).length < 2 ^ 63 := by
  simp only [eventText, List.length_append] at hshort
  omega

theorem eventText_absent (gap : Nat) (keyword rest keyword' : Text) {c : Char} (htime : IsNumber time)
    (hc : c ∈ keyword')
    (hdigit : c.isDigit = false) (hpoint : c ≠ '.') (hblank : c ≠ ' ') (hkeyword : c ∉ keyword)
    (hrest : c ∉ rest) :
    (eventText time gap keyword rest).find keyword' = npos := by
  apply find_of_not_mem hc
  simp [eventText, htime.not_mem hdigit hpoint, not_mem_blanks hblank, hkeyword, hrest]

theorem not_mem_pairText {c : Char} (hdigit : c.isDigit = false) (hopen : c ≠ '(') (hcomma : c ≠ ',')
    (hclose : c ≠ ')') : c ∉ pairText src dst := by
  simp [pairText, not_mem_decimal hdigit, hopen, hcomma, hclose]

private theorem push_pair (hshort : (pairText src dst).length < 2 ^ 63) (t : UInt32) (e : ConfigEvent) :
    p.push (pairText src dst) t e = .ok { p with events := p.events ++ [(t, e)] } := by
  have hpush := push_pairText (p := p) [] [] src dst (by simp) (by simpa using hshort) t e
  rw [List.nil_append, List.append_nil] at hpush
  exact hpush

private theorem eventText_there (hshort : (eventText time gap keyword rest).length < 2 ^ 63) :
    UInt64.ofNat (time ++ blanks gap).length ≠ npos := by
  apply find_ne_npos
  simp only [eventText, List.length_append] at hshort ⊢
  omega

theorem readEvent_linkdying (htime : IsNumber time)
    (hshort : (EventLine.mk time gap (.linkdying src dst)).text.length < 2 ^ 63) :
    readEvent atof fresh (EventLine.mk time gap (.linkdying src dst)).text p =
      .ok { p with events := p.events ++ [(atof.millis time, .linkDie (p.link (ends (src, dst))))] } := by
  rw [EventLine.text] at hshort ⊢
  have hfind := eventText_find gap (" ".toList ++ pairText src dst) (c := 'l') htime
    (show "linkdying".toList.head? = some 'l' from rfl) rfl (by decide) (by decide)
  have hpair := pairText_short hshort
  unfold readEvent
  dsimp only
  rw [hfind, if_pos (eventText_there hshort), eventText_time htime hshort,
    show (9 : UInt64) = UInt64.ofNat "linkdying".toList.length from rfl, eventText_pair hshort,
    readPair_pairText hpair]
  exact push_pair hpair _ _

theorem readEvent_linkcomingup (htime : IsNumber time)
    (hshort : (EventLine.mk time gap (.linkcomingup src dst)).text.length < 2 ^ 63) :
    readEvent atof fresh (EventLine.mk time gap (.linkcomingup src dst)).text p =
      .ok { p with events := p.events ++ [(atof.millis time, .linkComeUp (p.link (ends (src, dst))))] } := by
  rw [EventLine.text] at hshort ⊢
  have hdying := eventText_absent gap "linkcomingup".toList (" ".toList ++ pairText src dst)
    "linkdying".toList (c := 'd') htime (by decide) rfl (by decide)
    (by decide) (by decide) (by simp [not_mem_pairText])
  have hfind := eventText_find gap (" ".toList ++ pairText src dst) (c := 'l') htime
    (show "linkcomingup".toList.head? = some 'l' from rfl) rfl (by decide) (by decide)
  have hpair := pairText_short hshort
  unfold readEvent
  dsimp only
  rw [hdying, if_neg (not_not.mpr rfl), hfind, if_pos (eventText_there hshort), eventText_time htime hshort,
    show (12 : UInt64) = UInt64.ofNat "linkcomingup".toList.length from rfl, eventText_pair hshort,
    readPair_pairText hpair]
  exact push_pair hpair _ _

theorem readEvent_xmit (htime : IsNumber time)
    (hshort : (EventLine.mk time gap (.xmit src dst)).text.length < 2 ^ 63)
    (hsrc : p.node (ends (src, dst)).1 < p.nodeTable.size)
    (hdst : p.node (ends (src, dst)).2 < p.nodeTable.size) :
    readEvent atof fresh (EventLine.mk time gap (.xmit src dst)).text p =
      .ok { p with events := p.events ++ [(atof.millis time,
        .xmitPktEndToEnd (p.node (ends (src, dst)).1) (dataPacket fresh (src, dst)))] } := by
  rw [EventLine.text] at hshort ⊢
  have hlink (keyword : Text) (hl : 'l' ∈ keyword) := eventText_absent gap "xmit".toList
    (" ".toList ++ pairText src dst) keyword htime hl rfl (by decide)
    (by decide) (by decide) (by simp [not_mem_pairText])
  have hfind := eventText_find gap (" ".toList ++ pairText src dst) (c := 'x') htime
    (show "xmit".toList.head? = some 'x' from rfl) rfl (by decide) (by decide)
  have hpair := pairText_short hshort
  unfold readEvent
  dsimp only
  rw [hlink "linkdying".toList (by decide), if_neg (not_not.mpr rfl),
    hlink "linkcomingup".toList (by decide), if_neg (not_not.mpr rfl), hfind,
    if_pos (eventText_there hshort), eventText_time htime hshort,
    show (4 : UInt64) = UInt64.ofNat "xmit".toList.length from rfl, eventText_pair hshort,
    readPair_pairText hpair]
  have hxmit :
      p.xmit fresh (src, dst) =
        (p, .xmitPktEndToEnd (p.node (ends (src, dst)).1) (dataPacket fresh (src, dst))) := by
    simp [Parsed.xmit, hsrc, hdst]
  change (p.xmit fresh (shorts (ends (src, dst)))).1.push _ _ _ = _
  rw [shorts_ends, hxmit]
  exact push_pair hpair _ _

theorem readEvent_changedelay (htime : IsNumber time) (hdelay : IsNumber newdelay)
    (hshort : (EventLine.mk time gap (.changedelay src dst newdelay)).text.length < 2 ^ 63) :
    readEvent atof fresh (EventLine.mk time gap (.changedelay src dst newdelay)).text p =
      .ok { p with events := p.events ++ [(atof.millis time,
        .changeDelay (p.link (ends (src, dst))) (atof.millis newdelay))] } := by
  rw [EventLine.text] at hshort ⊢
  have habsent (keyword : Text) (c : Char) (hc : c ∈ keyword) := eventText_absent gap "changedelay".toList
    (" ".toList ++ (pairText src dst ++ newdelay)) keyword htime hc
  have hfind := eventText_find gap (" ".toList ++ (pairText src dst ++ newdelay)) (c := 'c') htime
    (show "changedelay".toList.head? = some 'c' from rfl) rfl (by decide) (by decide)
  have hfront : '(' ∉ "gedelay ".toList ∧ ',' ∉ "gedelay ".toList ∧ ')' ∉ "gedelay ".toList := by decide
  -- what is left of the keyword stays in front of the pair
  have htemp :
      textAfter (eventText time gap "changedelay".toList (" ".toList ++ (pairText src dst ++ newdelay)))
      (UInt64.ofNat (time ++ blanks gap).length) 4 = "gedelay ".toList ++ (pairText src dst ++ newdelay) := by
    have htight : Tight (("gedelay ".toList ++ pairText src dst) ++ newdelay) :=
      tight_append_number (c := 'g') rfl (by decide) (by simp [not_mem_pairText]) hdelay
    rw [List.append_assoc] at htight
    exact (eventText_after "chan".toList "gedelay".toList rfl hshort).trans htight.trim
  have htempShort : ("gedelay ".toList ++ (pairText src dst ++ newdelay)).length < 2 ^ 63 := by
    simp only [eventText, List.length_append] at hshort ⊢
    simp at hshort ⊢
    omega
  have hread :=
    readPair_eq _ newdelay src dst hfront ⟨hdelay.not_mem (by decide) (by decide),
      hdelay.not_mem (by decide) (by decide)⟩
    htempShort
  have hrest := substr_after_pair _ newdelay src dst hfront htempShort
  unfold readEvent
  dsimp only
  rw [habsent "linkdying".toList 'k' (by decide) rfl (by decide) (by decide) (by decide)
      (by simp [not_mem_pairText, hdelay.not_mem]),
    habsent "linkcomingup".toList 'k' (by decide) rfl (by decide) (by decide) (by decide)
      (by simp [not_mem_pairText, hdelay.not_mem]),
    habsent "xmit".toList 'x' (by decide) rfl (by decide) (by decide) (by decide)
      (by simp [not_mem_pairText, hdelay.not_mem])]
  simp only [ne_eq, not_true_eq_false, if_false]
  rw [hfind, if_pos (eventText_there hshort), eventText_time htime hshort, htemp, hread]
  change p.push _ _ (.changeDelay (p.link (ends (shorts (ends (src, dst))))) (atof.millis (substr _ _ _))) = _
  rw [shorts_ends, hrest]
  exact push_pairText _ newdelay src dst hfront htempShort _ _

theorem readEvent_stop (htime : IsNumber time) (hshort : (EventLine.mk time gap .stop).text.length < 2 ^ 63) :
    readEvent atof fresh (EventLine.mk time gap .stop).text p =
      .ok { p with stopTime := atof.millis time } := by
  rw [EventLine.text] at hshort ⊢
  have habsent (keyword : Text) (c : Char) (hc : c ∈ keyword) :=
    eventText_absent gap "end".toList [] keyword htime hc
  have hfind := eventText_find gap [] (c := 'e') htime
    (show "end".toList.head? = some 'e' from rfl) rfl (by decide) (by decide)
  unfold readEvent
  dsimp only
  rw [habsent "linkdying".toList 'l' (by decide) rfl (by decide) (by decide) (by decide) (by simp),
    habsent "linkcomingup".toList 'l' (by decide) rfl (by decide) (by decide) (by decide) (by simp),
    habsent "xmit".toList 'x' (by decide) rfl (by decide) (by decide) (by decide) (by simp),
    habsent "changedelay".toList 'c' (by decide) rfl (by decide) (by decide) (by decide) (by simp)]
  simp only [ne_eq, not_true_eq_false, if_false]
  rw [hfind, if_pos (eventText_there hshort), eventText_time htime hshort]

end Events

section Links

variable {before keyword v s : Text} {value : Option Text} {linkFrom linkTo : UInt16} {p : Parsed}

/-- The rest of a line after a field: nothing, or a blank and more fields. -/
structure Fields (s : Text) : Prop where
  first : ∀ c ∈ s.head?, c = ' '
  last : s.getLast? ≠ some ' '
  inside : '\r' ∉ s

theorem Fields.nil : Fields [] where
  first _ h := by cases h
  last := by simp
  inside := List.not_mem_nil

private theorem Fields.last_after_number (hs : Fields s) (hv : IsNumber v) (before : Text) :
    (before ++ (v ++ s)).getLast? ≠ some ' ' := by
  rw [List.getLast?_append, List.getLast?_append]
  cases hlast : s.getLast? with
  | some d => exact fun heq => hs.last (hlast.trans heq)
  | none =>
    rw [Option.none_or, List.getLast?_eq_some_getLast hv.nonempty, Option.some_or]
    intro heq
    have hmem := List.getLast_mem hv.nonempty
    rw [Option.some.inj heq] at hmem
    exact hv.not_mem (by decide) (by decide) hmem

private theorem Fields.tight (hs : Fields s) (hv : IsNumber v) (hfirst : (before ++ (v ++ s)).head? ≠ some ' ')
    (hreturn : '\r' ∉ before) : Tight (before ++ (v ++ s)) where
  first := hfirst
  last := hs.last_after_number hv before
  inside := by simp [hreturn, hs.inside, hv.not_mem]

private theorem fieldText_some_append (keyword v s : Text) :
    fieldText keyword (some v) ++ s = ' ' :: ((keyword ++ " ".toList) ++ (v ++ s)) := by
  simp [fieldText]

theorem Fields.field (keyword : Text) (hs : Fields s) (hreturn : '\r' ∉ keyword)
    (hvalue : ∀ v ∈ value, IsNumber v) :
    Fields (fieldText keyword value ++ s) := by
  cases value with
  | none => exact hs
  | some v =>
    have hv := hvalue v rfl
    rw [fieldText_some_append]
    refine ⟨fun c hc => (Option.some.inj hc).symm, ?_, ?_⟩
    · exact hs.last_after_number hv (' ' :: (keyword ++ " ".toList))
    · simp [hreturn, hs.inside, hv.not_mem]

private theorem Fields.tight_pair (hs : Fields s) : Tight (pairText linkFrom linkTo ++ s) where
  first heq := by cases heq
  last := by
    have hclose : pairText linkFrom linkTo = ("(".toList ++ (decimal linkFrom.toNat ++ (",".toList ++
        decimal linkTo.toNat))) ++ [')'] := by simp [pairText]
    rw [List.getLast?_append, hclose, List.getLast?_concat]
    cases hlast : s.getLast? with
    | some d => exact fun heq => hs.last (hlast.trans heq)
    | none =>
      rw [Option.none_or]
      decide
  inside := by
    simp [not_mem_pairText, hs.inside]

private theorem Fields.value_end (hs : Fields s) (hv : IsNumber v) (hshort : (v ++ s).length < 2 ^ 63) :
    (v ++ s).substr 0 ((v ++ s).find " ".toList) = v ∧ (v ++ s).eraseFront ((v ++ s).find " ".toList) = s := by
  have hblank : ' ' ∉ v := hv.not_mem (by decide) (by decide)
  rw [List.length_append] at hshort
  cases s with
  | nil =>
    have hfits : v.length ≤ npos.toNat := by
      change v.length ≤ 2 ^ 64 - 1
      omega
    have hfind : v.find " ".toList = npos := find_of_not_mem (List.mem_singleton_self ' ') hblank
    rw [List.append_nil, hfind]
    exact ⟨substr_npos hfits, eraseFront_npos hfits⟩
  | cons c s =>
    obtain rfl : c = ' ' := hs.first c rfl
    have hfind : (v ++ ' ' :: s).find " ".toList = UInt64.ofNat v.length := find_append rfl hblank
    rw [hfind]
    exact ⟨substr_front (by omega), eraseFront_append (by omega)⟩

private theorem Fields.keyword_front (keyword : Text) (hs : Fields s) (hv : IsNumber v) (hne : keyword ≠ [])
    (hkeyword : ' ' ∉ keyword ∧ '\r' ∉ keyword) (hshort : (fieldText keyword (some v) ++ s).length < 2 ^ 63) :
    (trim (fieldText keyword (some v) ++ s)).find keyword ≠ npos ∧
      trim ((trim (fieldText keyword (some v) ++ s)).eraseFront keyword.size) = v ++ s := by
  obtain ⟨c, rest, rfl⟩ := List.exists_cons_of_ne_nil hne
  have hhead : ((c :: rest ++ " ".toList) ++ (v ++ s)).head? ≠ some ' ' :=
    fun heq => hkeyword.1 (List.mem_cons.mpr (.inl (Option.some.inj heq).symm))
  have hvhead : ([] ++ (v ++ s)).head? ≠ some ' ' := by
    obtain ⟨d, v, rfl⟩ := List.exists_cons_of_ne_nil hv.nonempty
    exact fun heq => hv.not_mem (by decide) (by decide) (List.mem_cons.mpr (.inl (Option.some.inj heq).symm))
  have htight := hs.tight hv hhead (by simpa using hkeyword.2)
  have hvtight := hs.tight hv hvhead List.not_mem_nil
  have htext : (c :: rest ++ " ".toList) ++ (v ++ s) = c :: rest ++ (' ' :: (v ++ s)) := by simp
  have hzero : Text.find (c :: rest ++ (' ' :: (v ++ s))) (c :: rest) = UInt64.ofNat ([] : Text).length :=
    @find_append (c :: rest) [] (' ' :: (v ++ s)) c rfl List.not_mem_nil
  rw [fieldText_some_append] at hshort ⊢
  rw [trim_cons_blank, htight.trim, htext]
  simp only [List.length_cons, List.length_append] at hshort
  constructor
  · rw [hzero]
    decide
  · rw [Text.size, eraseFront_append (by rw [List.length_cons]; omega), trim_cons_blank]
    exact hvtight.trim

private theorem readField_fieldText (keyword : Text) {c : Char} (hs : Fields s)
    (hvalue : ∀ v ∈ value, IsNumber v)
    (hkeyword : ' ' ∉ keyword ∧ '\r' ∉ keyword) (hc : c ∈ keyword) (habsent : c ∉ s)
    (hshort : (fieldText keyword value ++ s).length < 2 ^ 63) :
    readField keyword (trim (fieldText keyword value ++ s)) = (value, trim s) := by
  cases value with
  | none =>
    have hfind : (trim s).find keyword = npos := find_of_not_mem hc fun h => habsent ((trim_sublist s).subset h)
    change readField keyword (trim s) = _
    rw [readField, if_neg (not_not.mpr hfind)]
  | some v =>
    have hv := hvalue v rfl
    obtain ⟨hfind, hrest⟩ := hs.keyword_front keyword hv (List.ne_nil_of_mem hc) hkeyword hshort
    have hvshort : (v ++ s).length < 2 ^ 63 := by
      rw [fieldText_some_append, List.length_cons, List.length_append] at hshort
      omega
    obtain ⟨hsub, herase⟩ := hs.value_end hv hvshort
    rw [readField, if_pos hfind]
    dsimp only
    rw [hrest, hsub, herase, hv.trim]

private theorem readProb_fieldText (hvalue : ∀ v ∈ value, IsNumber v)
    (hshort : (fieldText "prob".toList value).length < 2 ^ 63) :
    readProb (trim (fieldText "prob".toList value)) = value := by
  cases value with
  | none => rfl
  | some v =>
    have hv := hvalue v rfl
    rw [← List.append_nil (fieldText "prob".toList (some v))] at hshort ⊢
    obtain ⟨hfind, hrest⟩ := Fields.nil.keyword_front "prob".toList hv (by decide) (by decide) hshort
    have hvshort : v.length < 2 ^ 64 := by
      rw [fieldText_some_append, List.length_cons, List.length_append, List.append_nil] at hshort
      omega
    have hall : v.substr 0 v.size = v := by
      have hfront := @substr_front v [] hvshort
      rw [List.append_nil] at hfront
      exact hfront
    rw [readProb, if_pos hfind]
    dsimp only
    rw [show (4 : UInt64) = Text.size "prob".toList from rfl, hrest, List.append_nil, hall, hv.trim]

private theorem readEnds_pair (hshort : (pairText linkFrom linkTo).length < 2 ^ 63) :
    readEnds (decimal linkFrom.toNat ++ (",".toList ++ decimal linkTo.toNat)) =
      .ok (ends (linkFrom, linkTo)) := by
  have hfind : Text.find (decimal linkFrom.toNat ++ (",".toList ++ decimal linkTo.toNat)) ",".toList =
      UInt64.ofNat (decimal linkFrom.toNat).length := find_append (c := ',') rfl (not_mem_decimal rfl _)
  simp only [pairText, List.length_append] at hshort
  have hfrom : Text.substr (decimal linkFrom.toNat ++ (",".toList ++ decimal linkTo.toNat)) 0
      (UInt64.ofNat (decimal linkFrom.toNat).length) = decimal linkFrom.toNat := substr_front (by omega)
  have hto : Text.substr (decimal linkFrom.toNat ++ (",".toList ++ decimal linkTo.toNat))
      (UInt64.ofNat (decimal linkFrom.toNat).length + 1)
      (Text.size (decimal linkFrom.toNat ++ (",".toList ++ decimal linkTo.toNat))) = decimal linkTo.toNat := by
    have hcomma : (",".toList : Text).length = 1 := rfl
    have hpos : (UInt64.ofNat (decimal linkFrom.toNat).length + 1).toNat =
        (decimal linkFrom.toNat ++ ",".toList).length := by
      rw [toNat_ofNat_succ (by omega), List.length_append]
      rfl
    have hsize : (Text.size (decimal linkFrom.toNat ++ (",".toList ++ decimal linkTo.toNat))).toNat =
        (decimal linkFrom.toNat).length + (1 + (decimal linkTo.toNat).length) := by
      rw [Text.size, List.length_append, List.length_append, hcomma, toNat_ofNat (by omega)]
    rw [← List.append_assoc, substr, hpos, List.drop_left, List.append_assoc, hsize,
      List.take_of_length_le (by omega)]
  have hfirst := int_decimal linkFrom [] (by simp) (by simp) (by simp)
  have hsecond := int_decimal linkTo [] (by simp) (by simp) (by simp)
  rw [List.append_nil] at hfirst hsecond
  rw [readEnds, hfind, if_neg (find_ne_npos (by omega)), hfrom, hto, hfirst, hsecond]
  rfl

private theorem pairText_parts {rest : Text} (hshort : (pairText linkFrom linkTo ++ rest).length < 2 ^ 63) :
    let line := pairText linkFrom linkTo ++ rest
    line.find "(".toList = 0 ∧ line.find ")".toList ≠ npos ∧
      line.substr 1 (line.find ")".toList - 1) = decimal linkFrom.toNat ++
        (",".toList ++ decimal linkTo.toNat) ∧
      line.eraseFront (line.find ")".toList + 1) = rest := by
  obtain ⟨hopen, -, hclose⟩ := @pairText_positions [] rest linkFrom linkTo (by decide)
  rw [List.nil_append] at hopen hclose
  rw [List.length_append, length_pairText] at hshort
  dsimp only
  rw [hclose, List.length_nil, Nat.zero_add]
  have hpos :=
    toNat_ofNat (n := 1 + (decimal linkFrom.toNat).length + 1 + (decimal linkTo.toNat).length) (by omega)
  refine ⟨hopen, find_ne_npos (by omega), ?_, ?_⟩
  · have htext : pairText linkFrom linkTo ++ rest = "(".toList ++
        ((decimal linkFrom.toNat ++ (",".toList ++ decimal linkTo.toNat)) ++ (")".toList ++ rest)) := by
          simp [pairText]
    rw [htext]
    apply substr_append
    · rfl
    · rw [UInt64.toNat_sub, hpos]
      simp
      omega
  · rw [eraseFront, toNat_ofNat_succ (by omega), ← length_pairText, List.drop_left]

theorem not_mem_fieldText {c : Char} (hdigit : c.isDigit = false) (hpoint : c ≠ '.') (hblank : c ≠ ' ')
    (hkeyword : c ∉ keyword) (hvalue : ∀ v ∈ value, IsNumber v) : c ∉ fieldText keyword value := by
  cases value with
  | none => exact List.not_mem_nil
  | some v => simp [fieldText, hblank, hkeyword, (hvalue v rfl).not_mem hdigit hpoint]

/-- The values of the fields are numbers. -/
structure LinkLine.Valid (l : LinkLine) : Prop where
  delay : ∀ v ∈ l.delay, IsNumber v
  cost : ∀ v ∈ l.cost, IsNumber v
  prob : ∀ v ∈ l.prob, IsNumber v

instance (l : LinkLine) : Decidable l.Valid :=
  decidable_of_iff ((∀ v ∈ l.delay, IsNumber v) ∧ (∀ v ∈ l.cost, IsNumber v) ∧ ∀ v ∈ l.prob, IsNumber v)
    ⟨fun ⟨delay, cost, prob⟩ => ⟨delay, cost, prob⟩, fun ⟨delay, cost, prob⟩ => ⟨delay, cost, prob⟩⟩

theorem readLink_text {l : LinkLine} (hvalid : l.Valid) (hshort : l.text.length < 2 ^ 63) :
    readLink atof l.text p = p.addLink (ends (l.linkFrom, l.linkTo)) (l.delay.elim defaultDelay atof.millis)
      (l.prob.elim defaultProb atof.prob) := by
  unfold LinkLine.text at hshort ⊢
  have hprobs := Fields.nil.field "prob".toList (by decide) hvalid.prob
  rw [List.append_nil] at hprobs
  have hcosts := hprobs.field "cost".toList (by decide) hvalid.cost
  have hdelays := hcosts.field "delay".toList (by decide) hvalid.delay
  obtain ⟨hopen, hclose, hends, hfields⟩ := pairText_parts hshort
  have hsizes := hshort
  simp only [List.length_append] at hsizes
  -- the keywords are told apart by a letter each
  have hy : 'y' ∉ fieldText "cost".toList l.cost ++ fieldText "prob".toList l.prob := by
    rw [List.mem_append]
    exact not_or.mpr ⟨not_mem_fieldText rfl (by decide) (by decide) (by decide) hvalid.cost,
      not_mem_fieldText rfl (by decide) (by decide) (by decide) hvalid.prob⟩
  have hc : 'c' ∉ fieldText "prob".toList l.prob :=
    not_mem_fieldText rfl (by decide) (by decide) (by decide) hvalid.prob
  have hdelay := readField_fieldText "delay".toList hcosts hvalid.delay (by decide) (by decide) hy
    (by simp only [List.length_append]; omega)
  have hcost := readField_fieldText "cost".toList hprobs hvalid.cost (by decide) (by decide) hc
    (by simp only [List.length_append]; omega)
  have hprob := readProb_fieldText hvalid.prob (by omega)
  have htight : Tight (decimal l.linkFrom.toNat ++ (",".toList ++ decimal l.linkTo.toNat)) := by
    apply tight_of_not_mem
    · simp [not_mem_decimal]
    · simp [not_mem_decimal]
  rw [readLink]
  dsimp only
  rw [hdelays.tight_pair.trim, if_neg (not_not.mpr hopen), if_neg hclose, hends, htight.trim,
    readEnds_pair (by omega), hfields, hdelay]
  dsimp only
  rw [hcost]
  dsimp only
  rw [hprob]
  rfl

end Links

private theorem isNumber_decimal (n : Nat) : IsNumber (decimal n) where
  nonempty := decimal_ne_nil n
  chars _ h := .inl (isDigit_of_mem_decimal h)

private theorem int_decimal_alone (id : UInt16) : int (decimal id.toNat) = .ok (id.toNat : Int) := by
  have h := int_decimal id [] (by simp) (by simp) (by simp)
  rw [List.append_nil, (isNumber_decimal id.toNat).trim] at h
  exact h

private theorem addNode_toNat (id : UInt16) (nodes : Table UInt16 Unit) :
    addNode layout (id.toNat : Int) nodes = nodes.insert layout id () := by
  have hid : UInt16.ofInt (id.toNat : Int) = id := congrArg Prod.fst (shorts_ends (id, id))
  rw [addNode, hid]

private theorem nodesText_cons (id id' : UInt16) (ids : List UInt16) :
    nodesText (id :: id' :: ids) = decimal id.toNat ++ (" ".toList ++ nodesText (id' :: ids)) := by
  simp [nodesText, List.intercalate]

theorem not_mem_nodesText {c : Char} (hdigit : c.isDigit = false) (hblank : c ≠ ' ') (ids : List UInt16) :
    c ∉ nodesText ids := by
  induction ids with
  | nil => exact List.not_mem_nil
  | cons id ids ih =>
    cases ids with
    | nil =>
      have htext : nodesText [id] = decimal id.toNat := List.append_nil _
      rw [htext]
      exact not_mem_decimal hdigit id.toNat
    | cons id' ids =>
      rw [nodesText_cons]
      simp [not_mem_decimal hdigit, hblank, ih]

theorem readIds_nodesText (layout : Layout UInt16) (ids : List UInt16) {fuel : Nat} (nodes : Table UInt16 Unit)
    (hfuel : (nodesText ids).length ≤ fuel) (hshort : (nodesText ids).length < 2 ^ 63) :
    ∃ rest, readIds layout fuel (nodesText ids) nodes =
      .ok (ids.foldl (fun nodes id => nodes.insert layout id ()) nodes, rest) := by
  induction ids generalizing fuel nodes with
  | nil =>
    refine ⟨[], ?_⟩
    cases fuel with
    | zero => rfl
    | succ fuel => rfl
  | cons id ids ih =>
    have hnumber := isNumber_decimal id.toNat
    have hblank : ' ' ∉ decimal id.toNat := hnumber.not_mem (by decide) (by decide)
    have hlength := List.length_pos_of_ne_nil hnumber.nonempty
    cases ids with
    | nil =>
      have htext : nodesText [id] = decimal id.toNat := List.append_nil _
      rw [htext] at hfuel ⊢
      obtain ⟨fuel, rfl⟩ := Nat.exists_eq_succ_of_ne_zero (n := fuel) (by omega)
      have hfind : Text.find (decimal id.toNat) " ".toList = npos :=
        find_of_not_mem (List.mem_singleton_self ' ') hblank
      rw [readIds, if_neg hnumber.nonempty]
      dsimp only
      rw [if_neg (not_not.mpr hfind), hnumber.trim, int_decimal_alone]
      exact ⟨_, congrArg (fun nodes => Except.ok (nodes, _)) (addNode_toNat id nodes)⟩
    | cons id' ids =>
      rw [nodesText_cons] at hfuel hshort ⊢
      simp only [List.length_append] at hfuel hshort
      obtain ⟨fuel, rfl⟩ := Nat.exists_eq_succ_of_ne_zero (n := fuel) (by omega)
      have hfind : Text.find (decimal id.toNat ++ (" ".toList ++ nodesText (id' :: ids))) " ".toList =
          UInt64.ofNat (decimal id.toNat).length := find_append rfl hblank
      have hfront : Text.substr (decimal id.toNat ++ (" ".toList ++ nodesText (id' :: ids))) 0
          (UInt64.ofNat (decimal id.toNat).length) = decimal id.toNat := substr_front (by omega)
      have hrest : Text.eraseFront (decimal id.toNat ++ (" ".toList ++ nodesText (id' :: ids)))
          (UInt64.ofNat (decimal id.toNat).length + 1) = nodesText (id' :: ids) := by
        rw [eraseFront, toNat_ofNat_succ (by omega), List.drop_append]
        simp
      rw [readIds, if_neg (List.append_ne_nil_of_left_ne_nil hnumber.nonempty _)]
      dsimp only
      rw [hfind, if_pos (find_ne_npos (by omega)), hfront, hrest, int_decimal_alone]
      change ∃ rest, readIds layout fuel _ (addNode layout id.toNat nodes) = _
      rw [addNode_toNat]
      exact ih _ (by omega) (by omega)

end Comp556.Sim
