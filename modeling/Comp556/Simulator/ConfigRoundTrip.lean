import Comp556.Simulator.ConfigLines

/-!
# Reading back a configuration

A file that holds the lines of a description is read back as that description, whatever blank lines and
blanks at the ends of lines it has.
-/

namespace Comp556.Sim

open Text

variable {layout : Layout UInt16} {atof : Atof} {fresh : Memory} {file header : Text} {raws rest : List Text}
variable {turns : Nat} {terminated : Bool}

/-- What is written on the lines of a file. -/
def content (raws : List Text) : List Text := (raws.map trim).filter (· ≠ [])

private theorem content_cons_blank {raw : Text} (h : trim raw = []) (raws : List Text) :
    content (raw :: raws) = content raws := by
  simp [content, h]

private theorem content_cons {raw : Text} (h : trim raw ≠ []) (raws : List Text) :
    content (raw :: raws) = trim raw :: content raws := by
  simp [content, h]

private theorem dropWhile_blank {line : Text} {lines : List Text} (h : content raws = line :: lines) :
    ∃ raw rest, raws.dropWhile (fun line => trim line = []) = raw :: rest ∧ raw ∈ raws ∧ trim raw = line ∧
      content rest = lines := by
  induction raws with
  | nil => cases h
  | cons raw raws ih =>
    by_cases hblank : trim raw = []
    · rw [content_cons_blank hblank] at h
      obtain ⟨first, rest, hdrop, hmem, hline⟩ := ih h
      refine ⟨first, rest, ?_, List.mem_cons_of_mem raw hmem, hline⟩
      rw [List.dropWhile_cons_of_pos (by simp [hblank]), hdrop]
    · rw [content_cons hblank] at h
      obtain ⟨hline, hrest⟩ := List.cons.inj h
      exact ⟨raw, raws, List.dropWhile_cons_of_neg (by simp [hblank]), List.mem_cons_self, hline, hrest⟩

section Sections

variable {A : Type} {text : A → Text} {read : Text → Parsed → Except Failure Parsed}

private theorem readSection_content (state : List A → Parsed) {items : List A} (done : List A)
    {tail : List Text} (hstep : ∀ done, ∀ a ∈ items, read (text a) (state done) = .ok (state (done ++ [a])))
    (hopen : ∀ a ∈ items, (text a).find "[".toList = npos)
    (htail : ∀ header ∈ tail.head?, header.find "[".toList ≠ npos) (h : content raws = items.map text ++ tail) :
    ∃ next, readSection read raws (state done) = .ok (state (done ++ items), next) ∧
      next.elim [] (fun e => e.1 :: content e.2) = tail := by
  induction raws generalizing items done with
  | nil =>
    obtain ⟨hitems, rfl⟩ := List.append_eq_nil_iff.mp h.symm
    obtain rfl := List.map_eq_nil_iff.mp hitems
    rw [List.append_nil]
    exact ⟨none, rfl, rfl⟩
  | cons raw raws ih =>
    unfold readSection
    dsimp only
    by_cases hblank : trim raw = []
    · rw [content_cons_blank hblank] at h
      rw [if_pos hblank]
      exact ih done hstep hopen h
    · rw [content_cons hblank] at h
      rw [if_neg hblank]
      cases items with
      | nil =>
        obtain rfl := h
        rw [if_pos (htail (trim raw) rfl), List.append_nil]
        exact ⟨some (trim raw, raws), rfl, rfl⟩
      | cons a items =>
        obtain ⟨hline, hrest⟩ := List.cons.inj h
        rw [hline, if_neg (not_not.mpr (hopen a List.mem_cons_self)), hstep done a List.mem_cons_self]
        obtain ⟨next, hread, hnext⟩ := ih (done ++ [a])
          (fun done b hb => hstep done b (List.mem_cons_of_mem a hb))
          (fun b hb => hopen b (List.mem_cons_of_mem a hb))
          hrest
        rw [List.append_assoc] at hread
        exact ⟨next, hread, hnext⟩

end Sections

private theorem readNodes_step {line next left : Text} {lines : List Text} {nodes read : Table UInt16 Unit}
    (hopen : line.find "[".toList = npos) (hread : readIds layout line.length line nodes = .ok (read, left))
    (hturns : (next :: lines).length < turns) :
    readNodes layout terminated turns line (next :: lines) nodes =
      readNodes layout terminated (turns - 1) (trim next) lines read := by
  obtain ⟨turns, rfl⟩ := Nat.exists_eq_succ_of_ne_zero (Nat.ne_zero_of_lt hturns)
  rw [readNodes, if_neg (not_not.mpr hopen), hread]
  rfl

private theorem readNodes_header {line : Text} {lines : List Text} {nodes : Table UInt16 Unit}
    (hline : line = header) (hheader : header.find "[".toList ≠ npos) (hturns : lines.length < turns) :
    readNodes layout terminated turns line lines nodes = .ok (nodes, header, lines) := by
  obtain ⟨turns, rfl⟩ := Nat.exists_eq_succ_of_ne_zero (Nat.ne_zero_of_lt hturns)
  rw [hline, readNodes, if_pos hheader]

private theorem readNodes_content {raw : Text} {lists : List (List UInt16)} {nodes : Table UInt16 Unit}
    (hshort : ∀ ids ∈ lists, (nodesText ids).length < 2 ^ 63) (hheader : header.find "[".toList ≠ npos)
    (h : content (raw :: raws) = lists.map nodesText ++ header :: rest) :
    ∃ raws', (∀ turns, raws.length < turns → readNodes layout terminated turns (trim raw) raws nodes =
        .ok (lists.flatten.foldl (fun nodes id => nodes.insert layout id ()) nodes, header, raws')) ∧
      content raws' = rest := by
  induction raws generalizing raw lists nodes with
  | nil =>
    by_cases hblank : trim raw = []
    · rw [content_cons_blank hblank] at h
      exact absurd h.symm (by simp [content])
    · rw [content_cons hblank] at h
      cases lists with
      | nil =>
        obtain ⟨hline, hrest⟩ := List.cons.inj h
        exact ⟨[], fun turns hturns => readNodes_header hline hheader hturns, hrest⟩
      | cons ids lists =>
        obtain ⟨-, hrest⟩ := List.cons.inj h
        exact absurd hrest.symm (by simp [content])
  | cons next raws ih =>
    by_cases hblank : trim raw = []
    · rw [content_cons_blank hblank] at h
      obtain ⟨raws', hread, hraws'⟩ := ih hshort h
      refine ⟨raws', fun turns hturns => ?_, hraws'⟩
      rw [hblank, readNodes_step rfl rfl hturns]
      exact hread _ (Nat.lt_sub_of_add_lt hturns)
    · rw [content_cons hblank] at h
      cases lists with
      | nil =>
        obtain ⟨hline, hrest⟩ := List.cons.inj h
        exact ⟨next :: raws, fun turns hturns => readNodes_header hline hheader hturns, hrest⟩
      | cons ids lists =>
        obtain ⟨hline, hrest⟩ := List.cons.inj h
        have hopen : (nodesText ids).find "[".toList = npos :=
          find_of_not_mem (List.mem_singleton_self '[') (not_mem_nodesText rfl (by decide) ids)
        obtain ⟨left, hids⟩ :=
          readIds_nodesText layout ids nodes (Nat.le_refl _) (hshort ids List.mem_cons_self)
        obtain ⟨raws', hread, hraws'⟩ :=
          ih (fun ids' hids' => hshort ids' (List.mem_cons_of_mem ids hids')) hrest
        refine ⟨raws', fun turns hturns => ?_, hraws'⟩
        rw [hline, readNodes_step hopen hids hturns, hread _ (Nat.lt_sub_of_add_lt hturns), List.flatten_cons,
          List.foldl_append]

def EventKind.Valid (nodes : List UInt16) : EventKind → Prop
  | .linkdying _ _ => True
  | .linkcomingup _ _ => True
  | .xmit src dst => src ∈ nodes ∧ dst ∈ nodes
  | .changedelay _ _ newdelay => IsNumber newdelay
  | .stop => True

instance (nodes : List UInt16) : (kind : EventKind) → Decidable (kind.Valid nodes)
  | .linkdying _ _ => inferInstanceAs (Decidable True)
  | .linkcomingup _ _ => inferInstanceAs (Decidable True)
  | .xmit src dst => inferInstanceAs (Decidable (src ∈ nodes ∧ dst ∈ nodes))
  | .changedelay _ _ newdelay => inferInstanceAs (Decidable (IsNumber newdelay))
  | .stop => inferInstanceAs (Decidable True)

/-- Packets are sent between nodes that are there. -/
def EventLine.Valid (nodes : List UInt16) (e : EventLine) : Prop := IsNumber e.time ∧ e.kind.Valid nodes

instance (nodes : List UInt16) (e : EventLine) : Decidable (e.Valid nodes) :=
  inferInstanceAs (Decidable (_ ∧ _))

namespace Description

variable (d : Description)

/-- A node has an id on every line of nodes, and links and packets are between nodes that are there. -/
structure Valid : Prop where
  nodes : ∀ ids ∈ d.nodes, ids ≠ []
  links : ∀ l ∈ d.links, l.Valid ∧ l.linkFrom ∈ d.nodes.flatten ∧ l.linkTo ∈ d.nodes.flatten
  events : ∀ e ∈ d.events, e.Valid d.nodes.flatten

instance : Decidable d.Valid :=
  decidable_of_iff ((∀ ids ∈ d.nodes, ids ≠ []) ∧
    (∀ l ∈ d.links, l.Valid ∧ l.linkFrom ∈ d.nodes.flatten ∧ l.linkTo ∈ d.nodes.flatten) ∧
    ∀ e ∈ d.events, e.Valid d.nodes.flatten)
    ⟨fun ⟨nodes, links, events⟩ => ⟨nodes, links, events⟩, fun ⟨nodes, links, events⟩ => ⟨nodes, links, events⟩⟩

def lines : List Text :=
  "[nodes]".toList :: (d.nodes.map nodesText ++ "[links]".toList :: (d.links.map LinkLine.text ++
    "[events]".toList :: d.events.map EventLine.text))

/-- The file holds the description, and carriage returns stand only at the ends of its lines. -/
structure Holds (file : Text) : Prop where
  short : ∀ raw ∈ (splitLines file).1, raw.length < 2 ^ 31
  returns : ∀ raw ∈ (splitLines file).1, '\r' ∉ raw.dropLast
  content : content (splitLines file).1 = d.lines

instance (file : Text) : Decidable (d.Holds file) :=
  decidable_of_iff ((∀ raw ∈ (splitLines file).1, raw.length < 2 ^ 31) ∧
    (∀ raw ∈ (splitLines file).1, '\r' ∉ raw.dropLast) ∧ Sim.content (splitLines file).1 = d.lines)
    ⟨fun ⟨short, returns, content⟩ => ⟨short, returns, content⟩,
      fun ⟨short, returns, content⟩ => ⟨short, returns, content⟩⟩

variable (layout : Layout UInt16) (atof : Atof) (fresh : Memory)

/-- What has been read after some of the links. -/
def afterLinks (done : List LinkLine) : Parsed where
  nodeTable := d.nodeTable layout
  nullNode := false
  links := done.map (d.link layout atof)
  linkTable := (done.zipIdx.map fun e => (ends (e.1.linkFrom, e.1.linkTo), e.2)).reverse
  events := []
  stopTime := 0

/-- What has been read after the links and some of the events. -/
def afterEvents (done : List EventLine) : Parsed :=
  { d.afterLinks layout atof d.links with
    events := done.filterMap (d.event layout atof fresh)
    stopTime := done.foldl (fun t e => match e.kind with
      | .stop => atof.millis e.time
      | _ => t) 0 }

end Description

variable {d : Description}

private theorem afterLinks_node (atof : Atof) (done : List LinkLine) (id : UInt16) :
    (d.afterLinks layout atof done).node (id.toNat : Int) = d.nodeAt layout id := by
  unfold Parsed.node Description.nodeAt List.idxOf
  congr 1
  funext key
  rw [Bool.eq_iff_iff, decide_eq_true_eq, beq_iff_eq, Int.ofNat_inj, UInt16.toNat_inj]

private theorem mem_keys_foldl_insert (ids : List UInt16) (nodes : Table UInt16 Unit) (id : UInt16) :
    id ∈ (ids.foldl (fun nodes id => nodes.insert layout id ()) nodes).keys ↔ id ∈ ids ∨ id ∈ nodes.keys := by
  induction ids generalizing nodes with
  | nil => simp
  | cons first ids ih =>
    have hinsert : id ∈ (nodes.insert layout first ()).keys ↔ id = first ∨ id ∈ nodes.keys := by
      rw [Table.mem_keys_iff, Table.mem_keys_iff, Table.get?_insert]
      split
      · simp [*]
      · simp [*]
    rw [List.foldl_cons, ih, hinsert, List.mem_cons]
    tauto

private theorem nodeAt_lt {id : UInt16} (h : id ∈ d.nodes.flatten) :
    d.nodeAt layout id < (d.nodeTable layout).size := by
  rw [← Table.length_keys]
  exact List.idxOf_lt_length_of_mem ((mem_keys_foldl_insert _ _ id).mpr (.inl h))

private theorem afterEvents_link (done : List EventLine) (src dst : UInt16) :
    (d.afterEvents layout atof fresh done).link (ends (src, dst)) = d.linkAt src dst := by
  unfold Parsed.link Description.linkAt Description.afterEvents Description.afterLinks
  dsimp only
  rw [← List.map_reverse, List.find?_map, Option.map_map, List.length_map]
  rfl

private theorem readLink_step (hvalid : d.Valid) {l : LinkLine} (hl : l ∈ d.links)
    (hshort : l.text.length < 2 ^ 63) (done : List LinkLine) :
    readLink atof l.text (d.afterLinks layout atof done) = .ok (d.afterLinks layout atof (done ++ [l])) := by
  obtain ⟨hfields, hfrom, hto⟩ := hvalid.links l hl
  have hnode1 : (d.afterLinks layout atof done).node (ends (l.linkFrom, l.linkTo)).1 =
    d.nodeAt layout l.linkFrom :=
    afterLinks_node atof done l.linkFrom
  have hnode2 : (d.afterLinks layout atof done).node (ends (l.linkFrom, l.linkTo)).2 =
    d.nodeAt layout l.linkTo :=
    afterLinks_node atof done l.linkTo
  rw [readLink_text hfields hshort, Parsed.addLink, hnode1, hnode2, if_pos ⟨nodeAt_lt hfrom, nodeAt_lt hto⟩]
  simp [Description.afterLinks, Description.link, List.zipIdx_append]

private theorem readEvent_step (hvalid : d.Valid) {e : EventLine} (he : e ∈ d.events)
    (hshort : e.text.length < 2 ^ 63) (done : List EventLine) :
    readEvent atof fresh e.text (d.afterEvents layout atof fresh done) =
      .ok (d.afterEvents layout atof fresh (done ++ [e])) := by
  obtain ⟨htime, hkind⟩ := hvalid.events e he
  obtain ⟨time, gap, kind⟩ := e
  cases kind with
  | linkdying src dst =>
    rw [readEvent_linkdying htime hshort, afterEvents_link]
    simp [Description.afterEvents, Description.event]
  | linkcomingup src dst =>
    rw [readEvent_linkcomingup htime hshort, afterEvents_link]
    simp [Description.afterEvents, Description.event]
  | xmit src dst =>
    have hsrc : (d.afterEvents layout atof fresh done).node (ends (src, dst)).1 = d.nodeAt layout src :=
      afterLinks_node atof [] src
    have hdst : (d.afterEvents layout atof fresh done).node (ends (src, dst)).2 = d.nodeAt layout dst :=
      afterLinks_node atof [] dst
    rw [readEvent_xmit htime hshort (by rw [hsrc]; exact nodeAt_lt hkind.1)
      (by rw [hdst]; exact nodeAt_lt hkind.2), hsrc]
    simp [Description.afterEvents, Description.event]
  | changedelay src dst newdelay =>
    rw [readEvent_changedelay htime hkind hshort, afterEvents_link]
    simp [Description.afterEvents, Description.event]
  | stop =>
    rw [readEvent_stop htime hshort]
    simp [Description.afterEvents, Description.event]

private theorem LinkLine.find_header {l : LinkLine} (h : l.Valid) : l.text.find "[".toList = npos := by
  have hdelay : '[' ∉ fieldText "delay".toList l.delay :=
    not_mem_fieldText rfl (by decide) (by decide) (by decide) h.delay
  have hcost : '[' ∉ fieldText "cost".toList l.cost :=
    not_mem_fieldText rfl (by decide) (by decide) (by decide) h.cost
  have hprob : '[' ∉ fieldText "prob".toList l.prob :=
    not_mem_fieldText rfl (by decide) (by decide) (by decide) h.prob
  have hpair : '[' ∉ pairText l.linkFrom l.linkTo := not_mem_pairText rfl (by decide) (by decide) (by decide)
  apply find_of_not_mem (List.mem_singleton_self '[')
  rw [LinkLine.text, List.mem_append, List.mem_append, List.mem_append]
  exact not_or.mpr ⟨hpair, not_or.mpr ⟨hdelay, not_or.mpr ⟨hcost, hprob⟩⟩⟩

private theorem EventLine.find_header {nodes : List UInt16} {e : EventLine} (h : e.Valid nodes) :
    e.text.find "[".toList = npos := by
  obtain ⟨time, gap, kind⟩ := e
  obtain ⟨htime, hkind⟩ := h
  have hline {keyword rest : Text} (hkeyword : '[' ∉ keyword) (hrest : '[' ∉ rest) :
      (eventText time gap keyword rest).find "[".toList = npos :=
    eventText_absent gap keyword rest _ htime (List.mem_singleton_self '[') rfl (by decide)
      (by decide) hkeyword hrest
  have hpair {src dst : UInt16} : '[' ∉ " ".toList ++ pairText src dst :=
    List.not_mem_cons_of_ne_of_not_mem (by decide) (not_mem_pairText rfl (by decide) (by decide) (by decide))
  cases kind with
  | linkdying src dst => exact hline (by decide) hpair
  | linkcomingup src dst => exact hline (by decide) hpair
  | xmit src dst => exact hline (by decide) hpair
  | changedelay src dst newdelay =>
    have hdelay : '[' ∉ newdelay := hkind.not_mem rfl (by decide)
    refine hline (by decide) ?_
    rw [← List.append_assoc, List.mem_append]
    exact not_or.mpr ⟨hpair, hdelay⟩
  | stop => exact hline (by decide) List.not_mem_nil

private theorem Description.Holds.short_lines (h : d.Holds file) {line : Text} (hline : line ∈ d.lines) :
    line.length < 2 ^ 63 := by
  rw [← h.content] at hline
  obtain ⟨raw, hraw, rfl⟩ := List.mem_map.mp (List.mem_filter.mp hline).1
  exact Nat.lt_of_le_of_lt (trim_sublist raw).length_le (Nat.lt_trans (h.short raw hraw) (by decide))

namespace Description

private theorem nodesText_mem_lines {ids : List UInt16} (h : ids ∈ d.nodes) : nodesText ids ∈ d.lines :=
  List.mem_cons_of_mem _ (List.mem_append_left _ (List.mem_map_of_mem h))

private theorem link_mem_lines {l : LinkLine} (h : l ∈ d.links) : l.text ∈ d.lines :=
  List.mem_cons_of_mem _ (List.mem_append_right _ (List.mem_cons_of_mem _
    (List.mem_append_left _ (List.mem_map_of_mem h))))

private theorem event_mem_lines {e : EventLine} (h : e ∈ d.events) : e.text ∈ d.lines :=
  List.mem_cons_of_mem _ (List.mem_append_right _ (List.mem_cons_of_mem _
    (List.mem_append_right _ (List.mem_cons_of_mem _ (List.mem_map_of_mem h)))))

end Description

private theorem readNodes_of_holds (layout : Layout UInt16) (hfile : d.Holds file) :
    ∃ raw raws raws', (splitLines file).1.dropWhile (fun line => trim line = []) = raw :: raws ∧
      raw.find "[".toList ≠ npos ∧
      (∀ turns, (splitLines file).1.length ≤ turns →
        readNodesIfNamed layout (splitLines file).2 turns raw raws =
          .ok (d.nodeTable layout, "[links]".toList, raws')) ∧
      content raws' = d.links.map LinkLine.text ++ "[events]".toList :: d.events.map EventLine.text := by
  obtain ⟨raw, raws, hdrop, hmem, hheader, hcontent⟩ := dropWhile_blank hfile.content
  -- the header is the only line that is searched before it is trimmed
  have hinfix : "[nodes]".toList <:+: raw := hheader ▸ trim_infix (hfile.returns raw hmem)
  have hsize : raw.length < npos.toNat := Nat.lt_trans (hfile.short raw hmem) (by decide)
  have hopen : raw.find "[".toList ≠ npos :=
    find_of_infix (List.IsInfix.trans ⟨[], "nodes]".toList, rfl⟩ hinfix) hsize
  have hnamed : raw.find "nodes".toList ≠ npos :=
    find_of_infix (List.IsInfix.trans ⟨"[".toList, "]".toList, rfl⟩ hinfix) hsize
  cases raws with
  | nil => exact absurd hcontent.symm (by simp [content])
  | cons next raws =>
    have hshort : ∀ ids ∈ d.nodes, (nodesText ids).length < 2 ^ 63 := fun ids hids =>
      hfile.short_lines (Description.nodesText_mem_lines hids)
    obtain ⟨raws', hread, hraws'⟩ := readNodes_content hshort (by decide) hcontent
    refine ⟨raw, next :: raws, raws', hdrop, hopen, fun turns hturns => ?_, hraws'⟩
    have hlength :=
      (List.dropWhile_suffix (l := (splitLines file).1) fun line => decide (trim line = [])).length_le
    rw [hdrop, List.length_cons, List.length_cons] at hlength
    rw [readNodesIfNamed, if_pos hnamed]
    exact hread turns (by omega)

/-- A file that holds a description is read back as the configuration that the description stands for. -/
theorem init_roundTrip (hvalid : d.Valid) (hfile : d.Holds file) :
    ∃ p, (∀ turns, (splitLines file).1.length ≤ turns → init layout atof fresh turns file = .ok p) ∧
      p.nullNode = false ∧ p.config = d.config layout atof fresh := by
  obtain ⟨raw, raws, afterNodes, hdrop, hopen, hreadNodes, hlinks⟩ := readNodes_of_holds layout hfile
  have hlinksTail : ∀ header ∈ ("[events]".toList :: d.events.map EventLine.text).head?,
      Text.find header "[".toList ≠ npos := by
    rintro _ ⟨⟩
    decide
  obtain ⟨next, hreadLinks, hnext⟩ := readSection_content (d.afterLinks layout atof) []
    (fun done l hl => readLink_step hvalid hl (hfile.short_lines (Description.link_mem_lines hl)) done)
    (fun l hl => LinkLine.find_header (hvalid.links l hl).1) hlinksTail hlinks
  cases next with
  | none => cases hnext
  | some e =>
    obtain ⟨eventsHeader, afterLinks⟩ := e
    obtain ⟨rfl, hevents⟩ := List.cons.inj hnext
    obtain ⟨next, hreadEvents, hend⟩ := readSection_content (d.afterEvents layout atof fresh) []
      (fun done e he => readEvent_step hvalid he (hfile.short_lines (Description.event_mem_lines he)) done)
      (fun e he => EventLine.find_header (hvalid.events e he)) (by simp)
      (hevents.trans (List.append_nil _).symm)
    have hreadLinks :
        readIfNamed "links".toList (readLink atof) { Parsed.empty with nodeTable := d.nodeTable layout }
        (some ("[links]".toList, afterNodes)) =
          .ok (d.afterLinks layout atof d.links, some ("[events]".toList, afterLinks)) := by
      rw [readIfNamed, if_pos (by decide)]
      exact hreadLinks
    have hreadEvents : readIfNamed "events".toList (readEvent atof fresh) (d.afterLinks layout atof d.links)
        (some ("[events]".toList, afterLinks)) = .ok (d.afterEvents layout atof fresh d.events, next) := by
      rw [readIfNamed, if_pos (by decide)]
      exact hreadEvents
    refine ⟨d.afterEvents layout atof fresh d.events, fun turns hturns => ?_, rfl, rfl⟩
    unfold init
    dsimp only
    rw [hdrop]
    dsimp only
    rw [if_neg hopen]
    exact bind_eq_ok.mpr ⟨_, hreadNodes turns hturns,
      bind_eq_ok.mpr ⟨_, hreadLinks, bind_eq_ok.mpr ⟨_, hreadEvents, rfl⟩⟩⟩

def sampleDescription : Description where
  nodes := [[1, 2, 3]]
  links := [⟨1, 2, some "0.010".toList, none, some "0.0".toList⟩, ⟨1, 3, none, some "4".toList, none⟩]
  events := [⟨"60.00".toList, 1, .xmit 1 3⟩, ⟨"100.00".toList, 0, .changedelay 1 2 "0.600".toList⟩,
    ⟨"120.00".toList, 0, .linkdying 3 1⟩, ⟨"200.00".toList, 0, .stop⟩]

theorem sampleFile_roundTrip :
    ∃ p, (∀ turns, (splitLines sampleFile).1.length ≤ turns →
        init (.front UInt16) sampleAtof (sampleMemory []) turns sampleFile = .ok p) ∧ p.nullNode = false ∧
      p.config = sampleDescription.config (.front UInt16) sampleAtof (sampleMemory []) :=
  init_roundTrip (by decide +kernel) (by decide +kernel)

end Comp556.Sim
