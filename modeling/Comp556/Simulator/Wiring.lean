import Comp556.Routing.Ports
import Comp556.Simulator.Run
import Mathlib.Data.Finset.Card
import Mathlib.Data.Finset.Range

/-!
# The wiring of a configuration

Port `p` of a node is the link at position `p` of its `link_vector`. In a configuration without loops
and parallel links, what goes out of one port of a node comes in at one port of another.
-/

namespace Comp556.Sim

variable {config : Config} {ln node a b : Nat} {p q : UInt16} {id : UInt16}

def Link.Joins (link : Link) (a b : Nat) : Prop :=
  link.node1 = a ∧ link.node2 = b ∨ link.node1 = b ∧ link.node2 = a

/-- The node at the other end, as `Node::send` finds it. -/
def Link.farEnd (link : Link) (node : Nat) : Nat := if link.node1 = node then link.node2 else link.node1

namespace Config

def numPorts (config : Config) (node : Nat) : UInt16 := UInt16.ofNat (config.linkVector node).length

def attached (config : Config) (node : Nat) (port : UInt16) : UInt16 :=
  (((config.linkVector node)[port.toNat]?.bind fun ln => config.links[ln]?).bind fun link =>
    config.nodes[link.farEnd node]?).getD 0

/-- The delays that the configuration names for a link: the first one, and those of its events. -/
def HasDelay (config : Config) (ln : Nat) (delay : UInt32) : Prop :=
  (∃ link, config.links[ln]? = some link ∧ link.delay = delay) ∨
    ∃ time, (time, .changeDelay ln delay) ∈ config.events

def Names (config : Config) : ConfigEvent → Prop
  | .changeDelay link _ => link < config.links.length
  | .linkDie dyingLink => dyingLink < config.links.length
  | .linkComeUp upcomingLink => upcomingLink < config.links.length
  | .xmitPktEndToEnd src _ => src < config.nodes.length

/-- A network without loops and parallel links, small enough for the 16-bit size of an advertisement. -/
structure WellFormed (config : Config) : Prop where
  ids : config.nodes.Nodup
  few : config.nodes.length ≤ 16381
  ends : ∀ link ∈ config.links, link.node1 < config.nodes.length ∧ link.node2 < config.nodes.length ∧
    link.node1 ≠ link.node2
  simple : ∀ (ln ln' : Nat) (link link' : Link) (a b : Nat), config.links[ln]? = some link →
    config.links[ln']? = some link' → link.Joins a b → link'.Joins a b → ln = ln'
  names : ∀ e ∈ config.events, config.Names e.2

/-- Link `ln` carries what node `a` sends out of port `p` to port `q` of node `b`. -/
structure Carries (config : Config) (ln a : Nat) (p : UInt16) (b : Nat) (q : UInt16) : Prop where
  out : (config.linkVector a)[p.toNat]? = some ln
  into : (config.linkVector b)[q.toNat]? = some ln
  joins : ∃ link, config.links[ln]? = some link ∧ link.Joins a b

end Config

theorem Link.joins_farEnd (link : Link) (h : link.node1 = node ∨ link.node2 = node) :
    link.Joins node (link.farEnd node) := by
  unfold Link.farEnd
  split
  · rename_i h₁
    exact .inl ⟨h₁, rfl⟩
  · rename_i h₁
    exact .inr ⟨rfl, h.resolve_left h₁⟩

theorem Link.Joins.symm {link : Link} (h : link.Joins a b) : link.Joins b a := h.elim .inr .inl

theorem mem_linkVector :
    ln ∈ config.linkVector node ↔
      ∃ link, config.links[ln]? = some link ∧ (link.node1 = node ∨ link.node2 = node) := by
  simp only [Config.linkVector, List.mem_flatMap, Prod.exists, List.mem_zipIdx_iff_getElem?, List.mem_append,
    List.mem_ite_nil_right, List.mem_singleton]
  constructor
  · rintro ⟨link, l, hlink, ⟨hnode, rfl⟩ | ⟨hnode, rfl⟩⟩
    · exact ⟨link, hlink, .inl hnode⟩
    · exact ⟨link, hlink, .inr hnode⟩
  · rintro ⟨link, hlink, hnode | hnode⟩
    · exact ⟨link, ln, hlink, .inl ⟨hnode, rfl⟩⟩
    · exact ⟨link, ln, hlink, .inr ⟨hnode, rfl⟩⟩

namespace Config.WellFormed

variable (h : config.WellFormed)
include h

/-- A link stands in a `link_vector` once, as it does not join a node to itself. -/
theorem linkVector_nodup (node : Nat) : (config.linkVector node).Nodup := by
  have hfilter : config.linkVector node = (config.links.zipIdx.filter fun e =>
      decide (e.1.node1 = node ∨ e.1.node2 = node)).map Prod.snd := by
    have hpieces : ∀ l : List (Link × Nat), (∀ e ∈ l, e.1.node1 ≠ e.1.node2) →
        (l.flatMap fun e => (if e.1.node1 = node then [e.2] else []) ++ if e.1.node2 =
          node then [e.2] else []) =
          (l.filter fun e => decide (e.1.node1 = node ∨ e.1.node2 = node)).map Prod.snd := by
      intro l hl
      induction l with
      | nil => rfl
      | cons e l ih =>
        obtain ⟨hends, hl⟩ := List.forall_mem_cons.mp hl
        rw [List.flatMap_cons, ih hl, List.filter_cons]
        by_cases h₁ : e.1.node1 = node
        · have h₂ : e.1.node2 ≠ node := fun h₂ => hends (h₁.trans h₂.symm)
          simp [h₁, h₂]
        · by_cases h₂ : e.1.node2 = node <;> simp [h₁, h₂]
    refine hpieces _ fun e he => ?_
    have hlink := List.mem_zipIdx_iff_getElem?.mp he
    exact (h.ends e.1 (List.mem_of_getElem? hlink)).2.2
  rw [hfilter]
  refine List.Nodup.sublist (List.filter_sublist.map Prod.snd) ?_
  rw [List.zipIdx_map_snd]
  exact List.nodup_range'

theorem joins_ends {link : Link} (hlink : config.links[ln]? = some link) (hjoins : link.Joins a b) :
    a < config.nodes.length ∧ b < config.nodes.length ∧ a ≠ b := by
  obtain ⟨h₁, h₂, hne⟩ := h.ends link (List.mem_of_getElem? hlink)
  rcases hjoins with ⟨rfl, rfl⟩ | ⟨rfl, rfl⟩
  · exact ⟨h₁, h₂, hne⟩
  · exact ⟨h₂, h₁, hne.symm⟩

theorem linkVector_length_lt (node : Nat) : (config.linkVector node).length < 16381 := by
  let far (ln : Nat) : Nat := ((config.links[ln]?).map fun link => link.farEnd node).getD 0
  have hfar (ln : Nat) (hln : ln ∈ config.linkVector node) :
      ∃ link, config.links[ln]? = some link ∧ link.Joins node (far ln) := by
    obtain ⟨link, hlink, hnode⟩ := mem_linkVector.mp hln
    exact ⟨link, hlink, by simpa [far, hlink] using link.joins_farEnd hnode⟩
  have hnodup : ((config.linkVector node).map far).Nodup := by
    refine (h.linkVector_nodup node).map_on fun ln hln ln' hln' heq => ?_
    obtain ⟨link, hlink, hjoins⟩ := hfar ln hln
    obtain ⟨link', hlink', hjoins'⟩ := hfar ln' hln'
    exact h.simple ln ln' link link' node (far ln) hlink hlink' hjoins (heq ▸ hjoins')
  have hsub : ((config.linkVector node).map far).toFinset ⊆ (Finset.range config.nodes.length).erase node := by
    intro b hb
    obtain ⟨ln, hln, rfl⟩ := List.mem_map.mp (List.mem_toFinset.mp hb)
    obtain ⟨link, hlink, hjoins⟩ := hfar ln hln
    obtain ⟨-, hb, hne⟩ := h.joins_ends hlink hjoins
    exact Finset.mem_erase.mpr ⟨hne.symm, Finset.mem_range.mpr hb⟩
  have hcard := Finset.card_le_card hsub
  rw [List.toFinset_card_of_nodup hnodup, List.length_map] at hcard
  have hfew := h.few
  rcases List.eq_nil_or_concat (config.linkVector node) with hnil | ⟨lns, ln, hlast⟩
  · rw [hnil]
    exact Nat.zero_lt_succ _
  · obtain ⟨link, hlink, hjoins⟩ := hfar ln (by simp [hlast])
    have hnode := (h.joins_ends hlink hjoins).1
    rw [Finset.card_erase_of_mem (Finset.mem_range.mpr hnode), Finset.card_range] at hcard
    omega

theorem numPorts_toNat (node : Nat) : (config.numPorts node).toNat = (config.linkVector node).length := by
  have hlt := h.linkVector_length_lt node
  rw [numPorts, UInt16.toNat_ofNat']
  omega

theorem carries_attached (hcarries : config.Carries ln a p b q) (hid : config.nodes[b]? = some id) :
    config.attached a p = id := by
  obtain ⟨hout, -, link, hlink, hjoins⟩ := hcarries
  have hfar : link.farEnd a = b := by
    rcases hjoins with ⟨rfl, rfl⟩ | ⟨rfl, rfl⟩
    · exact if_pos rfl
    · exact if_neg (h.ends link (List.mem_of_getElem? hlink)).2.2
  simp [attached, hout, hlink, hfar, hid]

/-- The search of `Node::get_link_port`. -/
theorem idxOf?_linkVector (hport : (config.linkVector node)[p.toNat]? = some ln) :
    (config.linkVector node).idxOf? ln = some p.toNat := by
  obtain ⟨hlt, hget⟩ := List.getElem?_eq_some_iff.mp hport
  refine List.findIdx?_eq_some_iff_getElem.mpr ⟨hlt, by simp [hget], fun j hj hfound => ?_⟩
  have hsame : (config.linkVector node)[j] = (config.linkVector node)[p.toNat] :=
    (beq_iff_eq.mp hfound).trans hget.symm
  have heq := (List.Nodup.getElem_inj_iff (h.linkVector_nodup node)).mp hsame
  omega

theorem node_of_id (ha : config.nodes[a]? = some id) (hb : config.nodes[b]? = some id) : a = b :=
  (List.getElem?_inj (List.getElem?_eq_some_iff.mp ha).1 h.ids).mp (ha.trans hb.symm)

theorem exists_carries (hp : p < config.numPorts a) :
    ∃ ln b q, config.Carries ln a p b q ∧ q < config.numPorts b ∧ b < config.nodes.length ∧ a ≠ b := by
  rw [UInt16.lt_iff_toNat_lt, h.numPorts_toNat] at hp
  have hmem := List.getElem_mem hp
  obtain ⟨link, hlink, hnode⟩ := mem_linkVector.mp hmem
  have hjoins := link.joins_farEnd hnode
  obtain ⟨-, hb, hne⟩ := h.joins_ends hlink hjoins
  have hback : (config.linkVector a)[p.toNat] ∈ config.linkVector (link.farEnd a) :=
    mem_linkVector.mpr ⟨link, hlink, hjoins.symm.imp And.left And.right⟩
  obtain ⟨i, hi, hget⟩ := List.getElem_of_mem hback
  have hlt := h.linkVector_length_lt (link.farEnd a)
  have hq : (UInt16.ofNat i).toNat = i := by
    rw [UInt16.toNat_ofNat']
    omega
  refine ⟨(config.linkVector a)[p.toNat], link.farEnd a, UInt16.ofNat i,
    ⟨List.getElem?_eq_getElem hp, ?_, link, hlink, hjoins⟩, ?_, hb, hne⟩
  · rw [hq, ← hget, List.getElem?_eq_getElem hi]
  · rw [UInt16.lt_iff_toNat_lt, hq, h.numPorts_toNat]
    exact hi

theorem attached_wired (hid : config.nodes[a]? = some id) :
    Router.Attached (config.attached a) (config.numPorts a) id := by
  have hfar {p : UInt16} (hp : p < config.numPorts a) : ∃ ln b q id', config.Carries ln a p b q ∧
      config.nodes[b]? = some id' ∧ config.attached a p = id' ∧ a ≠ b := by
    obtain ⟨ln, b, q, hcarries, -, hb, hne⟩ := h.exists_carries hp
    exact ⟨ln, b, q, _, hcarries, List.getElem?_eq_getElem hb,
      h.carries_attached hcarries (List.getElem?_eq_getElem hb), hne⟩
  constructor
  · intro p hp heq
    obtain ⟨ln, b, q, id', -, hid', hattached, hne⟩ := hfar hp
    obtain rfl := hattached.symm.trans heq
    exact hne (h.node_of_id hid hid')
  · intro p p' hp hp' heq
    obtain ⟨ln, b, q, id', hcarries, hid', hattached, -⟩ := hfar hp
    obtain ⟨ln', b', q', id'', hcarries', hid'', hattached', -⟩ := hfar hp'
    obtain rfl := hattached.symm.trans (heq.trans hattached')
    obtain rfl := h.node_of_id hid' hid''
    obtain ⟨link, hlink, hjoins⟩ := hcarries.joins
    obtain ⟨link', hlink', hjoins'⟩ := hcarries'.joins
    obtain rfl := h.simple ln ln' link link' a b hlink hlink' hjoins hjoins'
    obtain ⟨hlt, -⟩ := List.getElem?_eq_some_iff.mp hcarries.out
    exact UInt16.toNat_inj.mp
      ((List.getElem?_inj hlt (h.linkVector_nodup a)).mp (hcarries.out.trans hcarries'.out.symm))

end Config.WellFormed

end Comp556.Sim
