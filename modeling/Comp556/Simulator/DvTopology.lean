import Comp556.Routing.DvConverge
import Comp556.Simulator.Routers

/-!
# A configuration as a distance-vector network

Links that never change their delay cost as much as a ping and its pong take, and connect the routers
that their nodes run.
-/

namespace Comp556.Sim

open Router Dv

variable {config : Config} {ln ln' a b c : Nat} {p p' q q' u v : UInt16} {limit : Nat} {link : Link}

instance (link : Link) (a b : Nat) : Decidable (link.Joins a b) := inferInstanceAs (Decidable (_ ∨ _))

/-- Twice the delay, in the 16 bits of a cost. -/
def Link.roundTrip (link : Link) : UInt16 := (link.delay + link.delay).toUInt16

namespace Config

variable (config : Config)

/-- Delays that never change, and costs that 16 bits have room for: even a route through every router stays
below the infinite cost. -/
structure Steady (limit : Nat) : Prop where
  delays : ∀ time ln delay link, (time, .changeDelay ln delay) ∈ config.events → config.links[ln]? = some link →
    delay = link.delay
  costs : ∀ link ∈ config.links, 0 < link.roundTrip.toNat ∧ link.roundTrip.toNat ≤ limit
  room : limit * config.nodes.length < 65535

def nodeOf (u : UInt16) : Nat := config.nodes.idxOf u

def portTo (u v : UInt16) : Option UInt16 :=
  ((config.linkVector (config.nodeOf u)).findIdx? fun ln =>
    (config.links[ln]?).any fun link => link.farEnd (config.nodeOf u) = config.nodeOf v).map UInt16.ofNat

/-- The router behind a port, and its port for the way back. -/
def farEnd (u p : UInt16) : UInt16 × UInt16 :=
  let v := config.attached (config.nodeOf u) p
  (v, (config.portTo v u).getD 0)

/-- A link between two nodes, at what it costs. -/
def Edge (u v : UInt16) (c : Nat) : Prop :=
  ∃ (ln : Nat) (link : Link) (a b : Nat), config.links[ln]? = some link ∧ link.Joins a b ∧
  config.nodes[a]? = some u ∧
    config.nodes[b]? = some v ∧ c = link.roundTrip.toNat

def cost (u v : UInt16) : UInt16 :=
  ((config.links.find? fun link => link.Joins (config.nodeOf u) (config.nodeOf v)).map Link.roundTrip).getD 1

end Config

theorem nodeOf_eq (hconfig : config.WellFormed) (hid : config.nodes[a]? = some u) : config.nodeOf u = a := by
  obtain ⟨hlt, rfl⟩ := List.getElem?_eq_some_iff.mp hid
  exact hconfig.ids.idxOf_getElem a hlt

private theorem linkVector_eq_nil (hconfig : config.WellFormed) (ha : config.nodes.length ≤ a) :
    config.linkVector a = [] := by
  refine List.eq_nil_iff_forall_not_mem.mpr fun ln hln => ?_
  obtain ⟨link, hlink, hnode⟩ := mem_linkVector.mp hln
  obtain ⟨h₁, h₂, -⟩ := hconfig.ends link (List.mem_of_getElem? hlink)
  omega

namespace Config.WellFormed

theorem carries_start (hconfig : config.WellFormed) (h : config.Carries ln a p b q)
    (h' : config.Carries ln c p' b q') :
    a = c ∧ p = p' := by
  obtain ⟨link, hlink, hjoins⟩ := h.joins
  obtain ⟨link', hlink', hjoins'⟩ := h'.joins
  obtain rfl := Option.some.inj (hlink.symm.trans hlink')
  have hends := hconfig.ends link (List.mem_of_getElem? hlink)
  obtain rfl : a = c := by
    rcases hjoins with ⟨rfl, rfl⟩ | ⟨rfl, rfl⟩ <;> rcases hjoins' with ⟨h₁, h₂⟩ | ⟨h₁, h₂⟩ <;> omega
  obtain ⟨hlt, -⟩ := List.getElem?_eq_some_iff.mp h.out
  have hsame := (List.getElem?_inj hlt (hconfig.linkVector_nodup a)).mp (h.out.trans h'.out.symm)
  exact ⟨rfl, UInt16.toNat_inj.mp hsame⟩

private theorem carries_of_joins (hconfig : config.WellFormed) (hlink : config.links[ln]? = some link)
    (hjoins : link.Joins a b) :
    ∃ p q, config.Carries ln a p b q := by
  have hport {c d : Nat} (hjoins : link.Joins c d) : ∃ p :
      UInt16, (config.linkVector c)[p.toNat]? = some ln := by
    obtain ⟨i, hi, hget⟩ :=
      List.getElem_of_mem (mem_linkVector.mpr ⟨link, hlink, hjoins.imp And.left And.right⟩)
    have hlt := hconfig.linkVector_length_lt c
    have hsame : (UInt16.ofNat i).toNat = i := by
      rw [UInt16.toNat_ofNat']
      omega
    exact ⟨UInt16.ofNat i, by rw [hsame, List.getElem?_eq_getElem hi, hget]⟩
  obtain ⟨p, hp⟩ := hport hjoins
  obtain ⟨q, hq⟩ := hport hjoins.symm
  exact ⟨p, q, hp, hq, link, hlink, hjoins⟩

theorem carries_link (hconfig : config.WellFormed) (h : config.Carries ln a p b q)
    (h' : config.Carries ln' a p' b q') :
    ln = ln' := by
  obtain ⟨link, hlink, hjoins⟩ := h.joins
  obtain ⟨link', hlink', hjoins'⟩ := h'.joins
  exact hconfig.simple ln ln' link link' a b hlink hlink' hjoins hjoins'

theorem carries_end (hconfig : config.WellFormed) (h : config.Carries ln a p b q)
    (h' : config.Carries ln' a p c q') :
    ln = ln' ∧ b = c := by
  obtain rfl := Option.some.inj (h.out.symm.trans h'.out)
  exact ⟨rfl, (hconfig.carries_start h.symm h'.symm).1⟩

end Config.WellFormed

private theorem Link.farEnd_eq (hconfig : config.WellFormed) (hlink : config.links[ln]? = some link)
    (hjoins : link.Joins a b) :
    link.farEnd a = b := by
  rcases hjoins with ⟨rfl, rfl⟩ | ⟨rfl, rfl⟩
  · exact if_pos rfl
  · exact if_neg (hconfig.ends link (List.mem_of_getElem? hlink)).2.2

private theorem nodes_nodeOf (h : config.nodeOf u < config.nodes.length) :
    config.nodes[config.nodeOf u]? = some u := by
  rw [List.getElem?_eq_getElem h]
  exact congrArg some (List.idxOf_get h)

theorem exists_carries_of_portTo (hconfig : config.WellFormed) (h : config.portTo u v = some p) :
    ∃ ln a b q, config.Carries ln a p b q ∧ config.nodes[a]? = some u ∧ config.nodes[b]? = some v := by
  obtain ⟨i, hfound, rfl⟩ := Option.map_eq_some_iff.mp h
  obtain ⟨hi, hany, -⟩ := List.findIdx?_eq_some_iff_getElem.mp hfound
  obtain ⟨link, hlink, hfar⟩ := (Option.any_eq_true _ _).mp hany
  have hu : config.nodeOf u < config.nodes.length := by
    by_contra hout
    rw [linkVector_eq_nil hconfig (Nat.not_lt.mp hout)] at hi
    exact Nat.not_lt_zero _ hi
  have hsmall := hconfig.linkVector_length_lt (config.nodeOf u)
  have hport : (UInt16.ofNat i).toNat = i := by
    rw [UInt16.toNat_ofNat']
    omega
  obtain ⟨ln, b, q, hcarries, -, hb, -⟩ :=
    hconfig.exists_carries (a := config.nodeOf u) (p := UInt16.ofNat i) (by
    rw [UInt16.lt_iff_toNat_lt, hport, hconfig.numPorts_toNat]
    exact hi)
  have hout := hcarries.out
  rw [hport, List.getElem?_eq_getElem hi] at hout
  obtain ⟨link', hlink', hjoins⟩ := hcarries.joins
  rw [Option.some.inj hout] at hlink
  obtain rfl := Option.some.inj (hlink.symm.trans hlink')
  have hv : b = config.nodeOf v := (Link.farEnd_eq hconfig hlink hjoins).symm.trans (of_decide_eq_true hfar)
  exact ⟨ln, _, b, q, hcarries, nodes_nodeOf hu, hv ▸ nodes_nodeOf (hv ▸ hb)⟩

theorem portTo_of_carries (hconfig : config.WellFormed) (hcarries : config.Carries ln a p b q)
    (hu : config.nodes[a]? = some u) (hv : config.nodes[b]? = some v) : config.portTo u v = some p := by
  obtain ⟨hlt, hport⟩ := List.getElem?_eq_some_iff.mp hcarries.out
  obtain ⟨link, hlink, hjoins⟩ := hcarries.joins
  have hfound :
      (config.linkVector a).findIdx? (fun ln => (config.links[ln]?).any fun link => link.farEnd a = b) =
      some p.toNat := by
    refine List.findIdx?_eq_some_iff_getElem.mpr ⟨hlt, ?_, fun j hj hfar => ?_⟩
    · simp [hport, hlink, Link.farEnd_eq hconfig hlink hjoins]
    · obtain ⟨link', hlink', hfar⟩ := (Option.any_eq_true _ _).mp hfar
      obtain ⟨link'', hlink'', hnode⟩ := mem_linkVector.mp (List.getElem_mem (Nat.lt_trans hj hlt))
      obtain rfl := Option.some.inj (hlink'.symm.trans hlink'')
      have hsame := hconfig.simple _ ln link' link a b hlink' hlink
        (of_decide_eq_true hfar ▸ link'.joins_farEnd hnode) hjoins
      have heq := (List.Nodup.getElem_inj_iff (hconfig.linkVector_nodup a)).mp (hsame.trans hport.symm)
      omega
  rw [Config.portTo, nodeOf_eq hconfig hu, nodeOf_eq hconfig hv, hfound, Option.map_some, UInt16.ofNat_toNat]

theorem cost_of_carries (hconfig : config.WellFormed) (hcarries : config.Carries ln a p b q)
    (hu : config.nodes[a]? = some u) (hv : config.nodes[b]? = some v) (hlink : config.links[ln]? = some link) :
    config.cost u v = link.roundTrip := by
  obtain ⟨link', hlink', hjoins⟩ := hcarries.joins
  obtain rfl := Option.some.inj (hlink.symm.trans hlink')
  obtain ⟨found, hfound⟩ : ∃ found, (config.links.find? fun link => link.Joins a b) = some found := by
    refine Option.isSome_iff_exists.mp (List.find?_isSome.mpr ⟨link, List.mem_of_getElem? hlink, ?_⟩)
    exact decide_eq_true hjoins
  obtain ⟨l, hl⟩ := List.mem_iff_getElem?.mp (List.mem_of_find?_eq_some hfound)
  have hjoinsFound : found.Joins a b := by simpa using List.find?_some hfound
  obtain rfl := hconfig.simple l ln found link a b hl hlink hjoinsFound hjoins
  obtain rfl := Option.some.inj (hl.symm.trans hlink)
  rw [Config.cost, nodeOf_eq hconfig hu, nodeOf_eq hconfig hv, hfound]
  rfl

private theorem cost_symm (config : Config) (u v : UInt16) : config.cost u v = config.cost v u := by
  unfold Config.cost
  congr 3
  funext link
  exact decide_eq_decide.mpr ⟨Link.Joins.symm, Link.Joins.symm⟩

theorem Config.Steady.positive (hsteady : config.Steady limit) (u v : UInt16) :
    0 < (config.cost u v).toNat := by
  unfold Config.cost
  cases hfound : config.links.find? fun link => link.Joins (config.nodeOf u) (config.nodeOf v) with
  | none => exact Nat.one_pos
  | some link => exact (hsteady.costs link (List.mem_of_find?_eq_some hfound)).1

private theorem attached_nodeOf (hconfig : config.WellFormed) (u : UInt16) :
    Attached (config.attached (config.nodeOf u)) (config.numPorts (config.nodeOf u)) u := by
  by_cases hu : config.nodeOf u < config.nodes.length
  · exact hconfig.attached_wired (nodes_nodeOf hu)
  · have hnone : config.numPorts (config.nodeOf u) = 0 := by
      rw [Config.numPorts, linkVector_eq_nil hconfig (Nat.not_lt.mp hu)]
      rfl
    rw [hnone]
    exact ⟨fun p hp => absurd hp (Nat.not_lt_zero _), fun p _ hp => absurd hp (Nat.not_lt_zero _)⟩

/-- The network of a configuration. -/
def Config.topology (config : Config) (hconfig : config.WellFormed) (hsteady : config.Steady limit) :
    Dv.Topology where
  numPorts u := config.numPorts (config.nodeOf u)
  portTo := config.portTo
  farEnd := config.farEnd
  links u v p h := by
    obtain ⟨ln, a, b, q, hcarries, hu, hv⟩ := exists_carries_of_portTo hconfig h
    have hback := portTo_of_carries hconfig hcarries.symm hv hu
    rw [nodeOf_eq hconfig hu]
    refine ⟨hconfig.lt_numPorts hcarries.out, q, hback, ?_⟩
    rw [Config.farEnd, nodeOf_eq hconfig hu, hconfig.carries_attached hcarries hv, hback]
    rfl
  cost := config.cost
  symmetric := cost_symm config
  positive := hsteady.positive
  wired := attached_nodeOf hconfig

theorem topology_edges (hconfig : config.WellFormed) (hsteady : config.Steady limit) :
    Weighted (config.topology hconfig hsteady).weight = config.Edge := by
  funext u v c
  rw [Weighted, weight_eq_some, eq_iff_iff]
  constructor
  · rintro ⟨hlinked, rfl⟩
    obtain ⟨p, hp⟩ := Option.isSome_iff_exists.mp hlinked
    obtain ⟨ln, a, b, q, hcarries, hu, hv⟩ := exists_carries_of_portTo hconfig hp
    obtain ⟨link, hlink, hjoins⟩ := hcarries.joins
    exact ⟨ln, link, a, b, hlink, hjoins, hu, hv, congrArg UInt16.toNat
      (cost_of_carries hconfig hcarries hu hv hlink)⟩
  · rintro ⟨ln, link, a, b, hlink, hjoins, hu, hv, rfl⟩
    obtain ⟨p, q, hcarries⟩ := hconfig.carries_of_joins hlink hjoins
    exact ⟨Option.isSome_of_eq_some (portTo_of_carries hconfig hcarries hu hv),
      (congrArg UInt16.toNat (cost_of_carries hconfig hcarries hu hv hlink)).symm⟩

theorem topology_small (hconfig : config.WellFormed) (hsteady : config.Steady limit) :
    Small (config.topology hconfig hsteady) config.nodes.toFinset limit where
  linked u v h := by
    obtain ⟨p, hp⟩ := Option.isSome_iff_exists.mp h
    obtain ⟨ln, a, b, q, -, hu, -⟩ := exists_carries_of_portTo hconfig hp
    exact List.mem_toFinset.mpr (List.mem_of_getElem? hu)
  cheap u v h := by
    obtain ⟨p, hp⟩ := Option.isSome_iff_exists.mp h
    obtain ⟨ln, a, b, q, hcarries, hu, hv⟩ := exists_carries_of_portTo hconfig hp
    obtain ⟨link, hlink, -⟩ := hcarries.joins
    change (config.cost u v).toNat ≤ limit
    rw [cost_of_carries hconfig hcarries hu hv hlink]
    exact (hsteady.costs link (List.mem_of_getElem? hlink)).2
  room := by
    rw [List.toFinset_card_of_nodup hconfig.ids]
    exact hsteady.room
  few := by
    rw [List.toFinset_card_of_nodup hconfig.ids]
    exact hconfig.few.trans (Nat.le_succ _)

theorem Config.Steady.hasDelay (hsteady : config.Steady limit) (hlink : config.links[ln]? = some link)
    {delay : UInt32} (h : config.HasDelay ln delay) : delay = link.delay := by
  rcases h with ⟨link', hlink', rfl⟩ | ⟨time, hevent⟩
  · exact congrArg Link.delay (Option.some.inj (hlink'.symm.trans hlink))
  · exact hsteady.delays time ln delay link hevent hlink

theorem steadyConfig_steady : (sampleConfig 11 []).Steady 22 where
  delays _ _ _ _ hevent := absurd hevent List.not_mem_nil
  costs := show ∀ link ∈ (sampleConfig 11 []).links, 0 < link.roundTrip.toNat ∧
    link.roundTrip.toNat ≤ 22 by decide
  room := by decide

end Comp556.Sim
