import Comp556.Foundation.Dijkstra
import Comp556.Routing.LsGraph

/-!
# Dijkstra's loop

What the loop of `update_forwarding_table` records about each router, the number of turns it takes,
and the independence of its result from the order of the tables and from edges at this router.
-/

namespace Comp556.Ls

theorem disDestLe_iff (a b : UInt16 × UInt16) :
    disDestLe a b ↔
      a.1.toNat < b.1.toNat ∨ a.1.toNat = b.1.toNat ∧ a.2.toNat ≤ b.2.toNat := by
  rw [disDestLe, UInt16.lt_iff_toNat_lt, UInt16.le_iff_toNat_le, UInt16.toNat_inj]

instance : Std.Total disDestLe := ⟨fun a b => by simp only [disDestLe_iff]; omega⟩

instance : IsTrans (UInt16 × UInt16) disDestLe :=
  ⟨fun a b c => by simp only [disDestLe_iff]; omega⟩

private theorem disDestLe_antisymm {a b : UInt16 × UInt16} (h : disDestLe a b) (h' : disDestLe b a) :
    a = b := by
  rw [disDestLe_iff] at h h'
  exact Prod.ext (UInt16.toNat_inj.mp (by omega)) (UInt16.toNat_inj.mp (by omega))

private theorem push_count (minq : List (UInt16 × UInt16)) (p q : UInt16 × UInt16) :
    (push minq p).count q = minq.count q + if p = q then 1 else 0 := by
  rw [push, (List.perm_orderedInsert disDestLe p minq).count_eq, List.count_cons]
  simp

/-- The queue is in order, and what is queued has a distance. -/
structure Queued (s : Search) : Prop where
  sorted : s.minq.Pairwise disDestLe
  known : ∀ p ∈ s.minq, (s.distance.get? p.2).isSome

/-- What a search has recorded about `v`: its distance, its next hop, and how often each distance
is queued for it. -/
def seen (s : Search) (v : UInt16) : Option UInt16 × Option UInt16 × (UInt16 → Nat) :=
  (s.distance.get? v, s.nextHop.get? v, fun dis => s.minq.count (dis, v))

def relaxed (du hop w : UInt16) (record : Option UInt16 × Option UInt16 × (UInt16 → Nat)) :
    Option UInt16 × Option UInt16 × (UInt16 → Nat) :=
  if improves record.1 du w then
    (some (du + w), some hop, fun dis => record.2.2 dis + if du + w = dis then 1 else 0)
  else record

section Relax

variable (env : Env) (u : UInt16) {du hop : UInt16}

/-- The state of a search while the edges of `u` are relaxed. -/
structure Relaxing (u du hop : UInt16) (s : Search) : Prop where
  distance : s.distance.get? u = some du
  nextHop : s.nextHop.getD u 0 = hop
  queued : Queued s

private theorem relax_effect {s : Search} (h : Relaxing u du hop s) (v : UInt16) (edge : Edge) :
    Relaxing u du hop (relax env u s (v, edge)) ∧
      seen (relax env u s (v, edge)) v = relaxed du hop edge.cost (seen s v) ∧
      ∀ j, j ≠ v → seen (relax env u s (v, edge)) j = seen s j := by
  have hdu : s.distance.getD u 0 = du := Table.getD_of_get? 0 h.distance
  rw [relax_eq, hdu]
  by_cases hbetter : improves (s.distance.get? v) du edge.cost
  · rw [if_pos hbetter]
    have hv : v ≠ u := by
      intro heq
      subst heq
      simp only [improves, h.distance, decide_eq_true_eq] at hbetter
      omega
    refine ⟨⟨?_, ?_, ?_, ?_⟩, ?_, fun j hj => ?_⟩
    · exact (Table.get?_insert_of_ne _ _ _ (Ne.symm hv)).trans h.distance
    · rw [Table.getD_insert, if_neg (Ne.symm hv), h.nextHop]
    · exact h.queued.sorted.orderedInsert _ _
    · intro p hp
      rcases (List.mem_orderedInsert disDestLe).mp hp with rfl | hp
      · simp
      · rw [Table.get?_insert]
        split
        · rfl
        · exact h.queued.known p hp
    · simp [seen, relaxed, hbetter, h.nextHop, push_count]
    · have hne (dis : UInt16) : (du + edge.cost, v) ≠ (dis, j) := fun heq => hj (congrArg Prod.snd heq).symm
      simp only [seen, Table.get?_insert_of_ne _ _ _ hj, push_count, hne, if_false, Nat.add_zero]
  · rw [if_neg hbetter]
    refine ⟨h, ?_, fun _ _ => rfl⟩
    simp [relaxed, seen, hbetter]

/-- Effect of the loop over `graph[u]`. -/
private theorem relaxAll_effect {s : Search} (hq : Queued s) (hdu : s.distance.get? u = some du)
    (edges : Table UInt16 Edge) :
    Relaxing u du (s.nextHop.getD u 0) (edges.entries.foldl (relax env u) s) ∧
      ∀ v, seen (edges.entries.foldl (relax env u) s) v =
        ((edges.get? v).map fun edge => relaxed du (s.nextHop.getD u 0) edge.cost (seen s v)).getD
          (seen s v) :=
  foldl_pointwise (relax env u) seen
    (fun v edge => relaxed du (s.nextHop.getD u 0) edge.cost (seen s v))
    (Relaxing u du (s.nextHop.getD u 0)) edges s ⟨hdu, rfl, hq⟩ (by
      intro s' v edge _ hs' hsame
      obtain ⟨hrelaxing, hself, hother⟩ := relax_effect env u hs' v edge
      exact ⟨hrelaxing, by rw [hself, hsame], hother⟩)

end Relax

def unvisitedEdges (graph : Graph) (visited : Table UInt16 Bool) : Nat :=
  (graph.entries.map fun row => if visited.getD row.1 false then 0 else row.2.size).sum

/-- A bound on the turns that are left. -/
def work (s : Search) : Nat := s.minq.length + unvisitedEdges s.graph s.visited

private theorem unvisitedEdges_visit (layout : Layout UInt16) (graph : Graph)
    (visited : Table UInt16 Bool) (u : UInt16) (hu : visited.getD u false = false) :
    unvisitedEdges (graph.index layout u .empty).2 (visited.insert layout u true) +
      (graph.index layout u .empty).1.size ≤ unvisitedEdges graph visited := by
  have hle (row : UInt16 × Table UInt16 Edge) :
      (if (visited.insert layout u true).getD row.1 false then 0 else row.2.size) ≤
        if visited.getD row.1 false then 0 else row.2.size := by
    rw [Table.getD_insert]
    by_cases hrow : row.1 = u
    · simp [hrow]
    · simp [hrow]
  unfold Table.index unvisitedEdges
  cases hrow : graph.get? u with
  | some edges =>
    apply sum_map_add_le ((graph.mem_entries_iff u edges).mpr hrow) (fun row _ => hle row)
    simp [Table.getD_insert, hu]
  | none =>
    have hperm := (Table.insert_entries_of_none layout Table.empty hrow).map fun row =>
      if (visited.insert layout u true).getD row.1 false then 0 else row.2.size
    have hrest := List.sum_le_sum (l := graph.entries) fun row _ => hle row
    have hnew : (if (visited.insert layout u true).getD u false then 0
        else (Table.empty : Table UInt16 Edge).size) = 0 := by
      simp [Table.getD_insert]
    have hempty : (Table.empty : Table UInt16 Edge).size = 0 := rfl
    dsimp only
    rw [hperm.sum_nat, List.map_cons, List.sum_cons, hnew, hempty]
    omega

private theorem relaxAll_length (env : Env) (u : UInt16) (l : List (UInt16 × Edge)) (s : Search) :
    (l.foldl (relax env u) s).minq.length ≤ s.minq.length + l.length := by
  induction l generalizing s with
  | nil => exact Nat.le_refl _
  | cons e l ih =>
    have hstep : (relax env u s e).minq.length ≤ s.minq.length + 1 := by
      rcases relax_cases env u s e with heq | ⟨distance, nextHop, p, heq⟩
      · rw [heq]
        exact Nat.le_succ _
      · rw [heq, push, List.orderedInsert_length]
    have hrest := ih (relax env u s e)
    rw [List.foldl_cons, List.length_cons]
    omega

theorem visit_work (env : Env) (s : Search) (u : UInt16) (minq : List (UInt16 × UInt16)) :
    work (visit env s u minq) ≤ minq.length + unvisitedEdges s.graph s.visited := by
  unfold visit
  dsimp only
  split
  · exact Nat.le_refl _
  · rename_i hu
    have hedges := unvisitedEdges_visit env.layout s.graph s.visited u (by simpa using hu)
    have hlength := relaxAll_length env u (s.graph.index env.layout u .empty).1.entries
      { s with
        minq := minq
        graph := (s.graph.index env.layout u .empty).2
        visited := s.visited.insert env.layout u true }
    have hkeeps := relaxAll_keepsMap env u (s.graph.index env.layout u .empty).1.entries
      { s with
        minq := minq
        graph := (s.graph.index env.layout u .empty).2
        visited := s.visited.insert env.layout u true }
    rw [work, hkeeps.graph, hkeeps.visited]
    apply Nat.le_trans (Nat.add_le_add_right hlength _)
    rw [← Table.size]
    dsimp only
    omega

private theorem search_done (env : Env) (fuel : Nat) (s : Search) (h : work s ≤ fuel) :
    (search env fuel s).minq = [] := by
  induction fuel generalizing s with
  | zero => exact List.eq_nil_of_length_eq_zero (by rw [work] at h; rw [search]; omega)
  | succ fuel ih =>
    rw [search]
    split
    · assumption
    · rename_i top minq hminq
      have hstep := visit_work env s top.2 minq
      rw [work, hminq, List.length_cons] at h
      exact ih _ (by omega)

/-- Router `u` at the front of the queue has been taken off it. -/
def pop (s : Search) (minq : List (UInt16 × UInt16)) : Search := { s with minq := minq }

theorem Queued.pop {s : Search} (h : Queued s) {p : UInt16 × UInt16} {minq : List (UInt16 × UInt16)}
    (hminq : s.minq = p :: minq) : Queued (pop s minq) where
  sorted := (hminq ▸ h.sorted).of_cons
  known q hq := h.known q (hminq ▸ List.mem_cons_of_mem p hq)

theorem visit_of_visited (env : Env) {s : Search} {u : UInt16} (minq : List (UInt16 × UInt16))
    (h : s.visited.getD u false = true) : visit env s u minq = pop s minq := by
  unfold visit
  dsimp only
  rw [if_pos h]
  rfl

/-- The search that starts to relax the edges of `u`. -/
def enter (env : Env) (s : Search) (u : UInt16) (minq : List (UInt16 × UInt16)) : Search :=
  { s with
    minq := minq
    graph := (s.graph.index env.layout u .empty).2
    visited := s.visited.insert env.layout u true }

private theorem visit_of_new (env : Env) {s : Search} {u : UInt16} (minq : List (UInt16 × UInt16))
    (h : s.visited.getD u false = false) :
    visit env s u minq =
      (s.graph.getD u .empty).entries.foldl (relax env u) (enter env s u minq) := by
  unfold visit
  dsimp only
  rw [if_neg (by simp [h]), Table.index_fst]
  rfl

theorem visit_effect (env : Env) {s : Search} (hq : Queued s) {p : UInt16 × UInt16}
    {minq : List (UInt16 × UInt16)} (hminq : s.minq = p :: minq)
    (hnew : s.visited.getD p.2 false = false) :
    ∃ du, s.distance.get? p.2 = some du ∧ Queued (visit env s p.2 minq) ∧
      (∀ v, seen (visit env s p.2 minq) v =
        ((edgeAt s.graph p.2 v).map fun edge =>
          relaxed du (s.nextHop.getD p.2 0) edge.cost (seen (pop s minq) v)).getD (seen (pop s minq) v)) ∧
      ∀ v, (visit env s p.2 minq).visited.getD v false =
        if v = p.2 then true else s.visited.getD v false := by
  obtain ⟨du, hdu⟩ := Option.isSome_iff_exists.mp (hq.known p (by simp [hminq]))
  have hentered : Queued (enter env s p.2 minq) := ⟨(hq.pop hminq).sorted, (hq.pop hminq).known⟩
  obtain ⟨hrelaxing, heffect⟩ := relaxAll_effect env p.2 hentered hdu (s.graph.getD p.2 .empty)
  have hkeeps := relaxAll_keepsMap env p.2 (s.graph.getD p.2 .empty).entries (enter env s p.2 minq)
  have hrow (v : UInt16) : (s.graph.getD p.2 .empty).get? v = edgeAt s.graph p.2 v := by
    rw [Table.getD_eq, edgeAt]
    cases s.graph.get? p.2 <;> simp
  rw [visit_of_new env minq hnew]
  refine ⟨du, hdu, hrelaxing.queued, fun v => ?_, fun v => ?_⟩
  · rw [heffect v, hrow]
    rfl
  · rw [hkeeps.visited]
    exact Table.getD_insert ..

/-- The two searches agree on everything but the router `home` they run for. -/
structure Agree (home : UInt16) (s t : Search) : Prop where
  seen : ∀ v, v ≠ home → seen s v = seen t v
  visited : ∀ v, s.visited.getD v false = t.visited.getD v false
  home_visited : s.visited.getD home false = true
  edges : ∀ a b, a ≠ home → b ≠ home →
    (edgeAt s.graph a b).map Edge.cost = (edgeAt t.graph a b).map Edge.cost

namespace Agree

variable {home : UInt16} {s t : Search}

theorem symm (h : Agree home s t) : Agree home t s where
  seen v hv := (h.seen v hv).symm
  visited v := (h.visited v).symm
  home_visited := (h.visited home).symm.trans h.home_visited
  edges a b ha hb := (h.edges a b ha hb).symm

private theorem mem (h : Agree home s t) {p : UInt16 × UInt16} (hp : p.2 ≠ home) (hmem : p ∈ s.minq) :
    p ∈ t.minq := by
  have hcount : s.minq.count p = t.minq.count p :=
    congrFun (congrArg (fun record => record.2.2) (h.seen p.2 hp)) p.1
  rw [← List.count_pos_iff] at hmem ⊢
  rwa [hcount] at hmem

private theorem seen_pop {minq : List (UInt16 × UInt16)} {p : UInt16 × UInt16} (hminq : s.minq = p :: minq)
    {v : UInt16} (hv : v ≠ p.2) : Ls.seen (pop s minq) v = Ls.seen s v := by
  have hne (dis : UInt16) : p ≠ (dis, v) := fun heq => hv (congrArg Prod.snd heq).symm
  simp [Ls.seen, pop, hminq, hne]

private theorem pop_home (h : Agree home s t) {minq : List (UInt16 × UInt16)} {p : UInt16 × UInt16}
    (hminq : s.minq = p :: minq) (hp : p.2 = home) : Agree home (pop s minq) t where
  seen v hv := (seen_pop hminq (hp ▸ hv)).trans (h.seen v hv)
  visited := h.visited
  home_visited := h.home_visited
  edges := h.edges

theorem front (h : Agree home s t) (hs : Queued s) (ht : Queued t) {minq minq' : List (UInt16 × UInt16)}
    {p p' : UInt16 × UInt16} (hminq : s.minq = p :: minq) (hminq' : t.minq = p' :: minq')
    (hp : p.2 ≠ home) (hp' : p'.2 ≠ home) : p = p' := by
  have hfirst {s : Search} (hs : Queued s) {p q : UInt16 × UInt16} {minq : List (UInt16 × UInt16)}
      (hminq : s.minq = p :: minq) (hq : q ∈ s.minq) : disDestLe p q := by
    rcases List.mem_cons.mp (hminq ▸ hq) with rfl | hq
    · exact (disDestLe_iff q q).mpr (by omega)
    · exact List.rel_of_pairwise_cons (hminq ▸ hs.sorted) hq
  exact disDestLe_antisymm (hfirst hs hminq (h.symm.mem hp' (by simp [hminq'])))
    (hfirst ht hminq' (h.mem hp (by simp [hminq])))

theorem visit (h : Agree home s t) (hs : Queued s) (ht : Queued t) (env env' : Env)
    {minq minq' : List (UInt16 × UInt16)} {p : UInt16 × UInt16} (hminq : s.minq = p :: minq)
    (hminq' : t.minq = p :: minq') (hp : p.2 ≠ home) :
    Agree home (visit env s p.2 minq) (visit env' t p.2 minq') := by
  have hpop (v : UInt16) (hv : v ≠ home) : Ls.seen (pop s minq) v = Ls.seen (pop t minq') v := by
    have hsame := h.seen v hv
    simp only [Ls.seen, hminq, hminq', List.count_cons, Prod.mk.injEq] at hsame
    simp only [Ls.seen, pop, hsame.1, hsame.2.1, Prod.mk.injEq, true_and]
    funext dis
    exact Nat.add_right_cancel (congrFun hsame.2.2 dis)
  cases hnew : s.visited.getD p.2 false with
  | true =>
    rw [visit_of_visited env minq hnew, visit_of_visited env' minq' (h.visited p.2 ▸ hnew)]
    exact ⟨hpop, h.visited, h.home_visited, h.edges⟩
  | false =>
    obtain ⟨du, hdu, _, heffect, hvisited⟩ := visit_effect env hs hminq hnew
    obtain ⟨du', hdu', _, heffect', hvisited'⟩ := visit_effect env' ht hminq' (h.visited p.2 ▸ hnew)
    have hself := h.seen p.2 hp
    simp only [Ls.seen, Prod.mk.injEq] at hself
    obtain rfl := Option.some.inj (hdu.symm.trans (hself.1.trans hdu'))
    have hhop : s.nextHop.getD p.2 0 = t.nextHop.getD p.2 0 := by
      rw [Table.getD_eq, Table.getD_eq, hself.2.1]
    constructor
    case seen =>
      intro v hv
      rw [heffect v, heffect' v, hhop, hpop v hv]
      have hedge := h.edges p.2 v hp hv
      cases hs : edgeAt s.graph p.2 v <;> cases ht : edgeAt t.graph p.2 v <;> simp_all
    case visited =>
      intro v
      rw [hvisited, hvisited', h.visited]
    case home_visited =>
      rw [hvisited, if_neg (Ne.symm hp)]
      exact h.home_visited
    case edges =>
      intro a b ha hb
      rw [visit_edges, visit_edges]
      exact h.edges a b ha hb

end Agree

theorem Queued.visit {s : Search} (h : Queued s) (env : Env) {p : UInt16 × UInt16}
    {minq : List (UInt16 × UInt16)} (hminq : s.minq = p :: minq) : Queued (visit env s p.2 minq) := by
  cases hnew : s.visited.getD p.2 false with
  | true =>
    rw [visit_of_visited env minq hnew]
    exact h.pop hminq
  | false =>
    obtain ⟨_, _, hqueued, _⟩ := visit_effect env h hminq hnew
    exact hqueued

theorem search_cons (env : Env) (fuel : Nat) {s : Search} {p : UInt16 × UInt16}
    {minq : List (UInt16 × UInt16)} (hminq : s.minq = p :: minq) :
    search env (fuel + 1) s = search env fuel (visit env s p.2 minq) := by
  rw [search, hminq]

private theorem search_nil (env : Env) (fuel : Nat) {s : Search} (hminq : s.minq = []) :
    search env fuel s = s := by
  cases fuel with
  | zero => rfl
  | succ fuel => rw [search, hminq]

theorem exists_turn (env : Env) {s : Search} {p : UInt16 × UInt16} {minq : List (UInt16 × UInt16)}
    {fuel : Nat} (hminq : s.minq = p :: minq) (hwork : work s ≤ fuel) :
    ∃ left, fuel = left + 1 ∧ work (visit env s p.2 minq) ≤ left := by
  have hstep := visit_work env s p.2 minq
  rw [work, hminq, List.length_cons] at hwork
  exact ⟨fuel - 1, by omega, by omega⟩

private theorem Agree.visit_home {home : UInt16} {s t : Search} (h : Agree home s t) (env : Env)
    {p : UInt16 × UInt16} {minq : List (UInt16 × UInt16)} (hminq : s.minq = p :: minq) (hp : p.2 = home) :
    Agree home (Ls.visit env s p.2 minq) t := by
  rw [visit_of_visited env minq (hp ▸ h.home_visited)]
  exact h.pop_home hminq hp

/-- Two searches that agree and have enough turns end in agreement, whatever the order of their tables, and
whatever they meet at the router they run for. -/
private theorem search_agree (env env' : Env) {home : UInt16} (n : Nat) :
    ∀ (fuel fuel' : Nat) (s t : Search), fuel + fuel' = n → work s ≤ fuel → work t ≤ fuel' →
      Queued s → Queued t → Agree home s t →
      Agree home (search env fuel s) (search env' fuel' t) := by
  induction n using Nat.strongRecOn with
  | ind n ih =>
    intro fuel fuel' s t hn hs ht hqs hqt hagree
    cases hminq : s.minq with
    | cons p minq =>
      obtain ⟨left, rfl, hleft⟩ := exists_turn env hminq hs
      by_cases hp : p.2 = home
      · rw [search_cons env left hminq]
        exact ih (left + fuel') (by omega) _ _ _ _ rfl hleft ht (hqs.visit env hminq) hqt
          (hagree.visit_home env hminq hp)
      · cases hminq' : t.minq with
        | nil =>
          have hmem := hagree.mem hp (p := p) (by simp [hminq])
          simp [hminq'] at hmem
        | cons p' minq' =>
          obtain ⟨left', rfl, hleft'⟩ := exists_turn env' hminq' ht
          by_cases hp' : p'.2 = home
          · rw [search_cons env' left' hminq']
            exact ih (left + 1 + left') (by omega) _ _ _ _ rfl hs hleft' hqs (hqt.visit env' hminq')
              (hagree.symm.visit_home env' hminq' hp').symm
          · obtain rfl := hagree.front hqs hqt hminq hminq' hp hp'
            rw [search_cons env left hminq, search_cons env' left' hminq']
            exact ih (left + left') (by omega) _ _ _ _ rfl hleft hleft' (hqs.visit env hminq)
              (hqt.visit env' hminq') (hagree.visit hqs hqt env env' hminq hminq' hp)
    | nil =>
      rw [search_nil env fuel hminq]
      cases hminq' : t.minq with
      | nil => rwa [search_nil env' fuel' hminq']
      | cons p' minq' =>
        obtain ⟨left', rfl, hleft'⟩ := exists_turn env' hminq' ht
        have hp' : p'.2 = home := by
          by_contra hne
          have hmem := hagree.symm.mem hne (p := p') (by simp [hminq'])
          simp [hminq] at hmem
        have hrest := ih (fuel + left') (by omega) fuel left' s _ rfl hs hleft' hqs
          (hqt.visit env' hminq') (hagree.symm.visit_home env' hminq' hp').symm
        rw [search_nil env fuel hminq] at hrest
        rwa [search_cons env' left' hminq']

def startSearch (env : Env) (r : Router) : Search where
  graph := r.graph
  portTable := r.portTable
  distance := Table.empty.insert env.layout r.routerId 0
  nextHop := Table.empty.insert env.layout r.routerId r.routerId
  visited := Table.empty.insert env.layout r.routerId true
  minq := []

/-- The next hop over a link: the router behind its port. -/
def hopOf (r : Router) (link : Link) : UInt16 := r.portTable.getD link.port 0

/-- The state of a search while the links of `r` are entered. -/
structure Seeding (env : Env) (r : Router) (s : Search) : Prop where
  hops : ∀ port, s.portTable.getD port 0 = r.portTable.getD port 0
  visited : s.visited = (startSearch env r).visited
  queued : Queued s

private theorem seedLink_effect (env : Env) {r : Router} {s : Search} (h : Seeding env r s) (n : UInt16)
    (link : Link) :
    Seeding env r (seedLink env s (n, link)) ∧
      seen (seedLink env s (n, link)) n = (some link.cost, some (hopOf r link),
        fun dis => (seen s n).2.2 dis + if link.cost = dis then 1 else 0) ∧
      ∀ j, j ≠ n → seen (seedLink env s (n, link)) j = seen s j := by
  unfold seedLink
  dsimp only
  refine ⟨⟨fun port => ?_, h.visited, ?_, ?_⟩, ?_, fun j hj => ?_⟩
  · exact (Table.getD_index_snd ..).trans (h.hops port)
  · exact h.queued.sorted.orderedInsert _ _
  · intro p hp
    rcases (List.mem_orderedInsert disDestLe).mp hp with rfl | hp
    · simp
    · rw [Table.get?_insert]
      split
      · rfl
      · exact h.queued.known p hp
  · simp [seen, push_count, Table.index_fst, h.hops, hopOf]
  · have hne (dis : UInt16) : (link.cost, n) ≠ (dis, j) := fun heq => hj (congrArg Prod.snd heq).symm
    simp only [seen, Table.get?_insert_of_ne _ _ _ hj, push_count, hne, if_false, Nat.add_zero]

theorem initSearch_effect (env : Env) (r : Router) :
    Seeding env r (initSearch env r) ∧ ∀ v, seen (initSearch env r) v =
      ((r.neighborTable.get? v).map fun link => (some link.cost, some (hopOf r link),
        fun dis => if link.cost = dis then 1 else 0)).getD (seen (startSearch env r) v) := by
  have hcount (v dis : UInt16) : (seen (startSearch env r) v).2.2 dis = 0 := by
    simp [seen, startSearch]
  obtain ⟨hseeding, heffect⟩ := foldl_pointwise (seedLink env) seen
    (fun n link => (some link.cost, some (hopOf r link),
      fun dis => (seen (startSearch env r) n).2.2 dis + if link.cost = dis then 1 else 0))
    (Seeding env r) r.neighborTable (startSearch env r)
    ⟨fun _ => rfl, rfl, .nil, fun p hp => by cases hp⟩ (by
      intro s n link _ hs hsame
      obtain ⟨hseed, hself, hother⟩ := seedLink_effect env hs n link
      exact ⟨hseed, by rw [hself, hsame], hother⟩)
  refine ⟨hseeding, fun v => (heffect v).trans ?_⟩
  simp only [hcount, Nat.zero_add]

theorem initSearch_work (env : Env) (r : Router) : work (initSearch env r) ≤ searchFuel r := by
  have hlength : ∀ (l : List (UInt16 × Link)) (s : Search),
      (l.foldl (seedLink env) s).minq.length = s.minq.length + l.length := by
    intro l
    induction l with
    | nil => exact fun _ => rfl
    | cons e l ih =>
      intro s
      have hstep : (seedLink env s e).minq.length = s.minq.length + 1 :=
        List.orderedInsert_length disDestLe s.minq _
      rw [List.foldl_cons, ih, hstep, List.length_cons]
      omega
  have hminq : (initSearch env r).minq.length = r.neighborTable.size :=
    (hlength _ (startSearch env r)).trans (Nat.zero_add _)
  have hedges := List.sum_le_sum (l := r.graph.entries)
    (f := fun row => if (initSearch env r).visited.getD row.1 false then 0 else row.2.size)
    (g := fun row => row.2.size) fun row _ => by split <;> omega
  rw [work, searchFuel, hminq, unvisitedEdges, initSearch_graph]
  omega

/-- `searchFuel` is turns enough to empty the queue. -/
theorem search_ends (env : Env) (r : Router) : (search env (searchFuel r) (initSearch env r)).minq = [] :=
  search_done env (searchFuel r) (initSearch env r) (initSearch_work env r)

theorem collectRoutes_get? (env : Env) (r : Router) (s : Search) (d : UInt16) :
    (collectRoutes env r s).get? d =
      if d = r.routerId then none
      else (s.distance.get? d).map fun dis => ⟨dis, s.nextHop.getD d 0⟩ := by
  have hloop := (foldl_pointwise (fun (routes : RoutingTable) (destDis : UInt16 × UInt16) =>
      if destDis.1 = r.routerId then routes
      else routes.insert env.layout destDis.1 ⟨destDis.2, s.nextHop.getD destDis.1 0⟩)
    Table.get? (fun d dis => if d = r.routerId then none else some ⟨dis, s.nextHop.getD d 0⟩)
    (fun routes => routes.get? r.routerId = none) s.distance .empty rfl (by
      intro routes v dis _ hnone _
      by_cases hv : v = r.routerId
      · subst hv
        simp only [if_true]
        exact ⟨hnone, by simpa using hnone, fun _ _ => rfl⟩
      · simp only [hv, if_false]
        refine ⟨?_, by simp [hv], fun j hj => Table.get?_insert_of_ne _ _ _ hj⟩
        exact (Table.get?_insert_of_ne _ _ _ (Ne.symm hv)).trans hnone)).2 d
  apply hloop.trans
  by_cases hd : d = r.routerId <;> cases s.distance.get? d <;> simp [hd]

theorem search_induct (env : Env) {P : Search → Prop}
    (hstep : ∀ s p minq, Queued s → s.minq = p :: minq → P s → P (visit env s p.2 minq)) (fuel : Nat)
    (s : Search) (hq : Queued s) (hs : P s) : P (search env fuel s) := by
  induction fuel generalizing s with
  | zero => exact hs
  | succ fuel ih =>
    cases hminq : s.minq with
    | nil => rwa [search_nil env _ hminq]
    | cons p minq =>
      rw [search_cons env fuel hminq]
      exact ih _ (hq.visit env hminq) (hstep s p minq hq hminq hs)

/-- Every recorded router has a next hop with the property `good`. -/
structure GoodHops (home : UInt16) (good : UInt16 → Prop) (s : Search) : Prop where
  home_visited : s.visited.getD home false = true
  hop : ∀ v, v ≠ home → (s.distance.get? v).isSome → ∃ hop, s.nextHop.get? v = some hop ∧ good hop

theorem GoodHops.visit {home : UInt16} {good : UInt16 → Prop} (env : Env) {s : Search}
    {p : UInt16 × UInt16} {minq : List (UInt16 × UInt16)} (hq : Queued s) (hminq : s.minq = p :: minq)
    (h : GoodHops home good s) : GoodHops home good (visit env s p.2 minq) := by
  cases hnew : s.visited.getD p.2 false with
  | true =>
    rw [visit_of_visited env minq hnew]
    exact ⟨h.home_visited, h.hop⟩
  | false =>
    have hp : p.2 ≠ home := fun heq => by simp [heq, h.home_visited] at hnew
    obtain ⟨du, hdu, _, heffect, hvisited⟩ := visit_effect env hq hminq hnew
    obtain ⟨hop, hhop, hgood⟩ := h.hop p.2 hp (by simp [hdu])
    refine ⟨by rw [hvisited, if_neg (Ne.symm hp)]; exact h.home_visited, fun v hv hknown => ?_⟩
    have hseen := heffect v
    have hold := h.hop v hv
    simp only [Table.getD_of_get? 0 hhop] at hseen
    cases hedge : edgeAt s.graph p.2 v with
    | none =>
      simp only [hedge, Option.map_none, Option.getD_none, seen, pop, Prod.mk.injEq] at hseen
      rw [hseen.2.1]
      exact hold (hseen.1 ▸ hknown)
    | some edge =>
      simp only [hedge, Option.map_some, Option.getD_some, relaxed] at hseen
      split at hseen
      · simp only [seen, Prod.mk.injEq] at hseen
        exact ⟨hop, hseen.2.1, hgood⟩
      · simp only [seen, pop, Prod.mk.injEq] at hseen
        rw [hseen.2.1]
        exact hold (hseen.1 ▸ hknown)

private theorem visit_known (env : Env) {s : Search} {p : UInt16 × UInt16} {minq : List (UInt16 × UInt16)}
    (hq : Queued s) (hminq : s.minq = p :: minq) {v : UInt16} (h : (s.distance.get? v).isSome) :
    ((visit env s p.2 minq).distance.get? v).isSome := by
  cases hnew : s.visited.getD p.2 false with
  | true =>
    rw [visit_of_visited env minq hnew]
    exact h
  | false =>
    obtain ⟨du, _, _, heffect, _⟩ := visit_effect env hq hminq hnew
    have hdistance : (visit env s p.2 minq).distance.get? v = _ := congrArg Prod.fst (heffect v)
    rw [hdistance]
    cases edgeAt s.graph p.2 v with
    | none => exact h
    | some edge =>
      simp only [Option.map_some, Option.getD_some, relaxed]
      split
      · rfl
      · exact h

/-- Every other router in `neighbor_table` gets a route. -/
theorem updateForwardingTable_neighbor (env : Env) {r : Router} {n : UInt16} {link : Link}
    (hlink : r.neighborTable.get? n = some link) (hn : n ≠ r.routerId) :
    ((updateForwardingTable env r).routingTable.get? n).isSome := by
  obtain ⟨hseeding, heffect⟩ := initSearch_effect env r
  have hstart : (initSearch env r).distance.get? n = some link.cost := by
    have hseen := heffect n
    rw [hlink] at hseen
    exact congrArg Prod.fst hseen
  have hknown := search_induct env (P := fun s => (s.distance.get? n).isSome)
    (fun s p minq hq hminq h => visit_known env hq hminq h) (searchFuel r) (initSearch env r)
    hseeding.queued (by simp [hstart])
  change ((collectRoutes env r (search env (searchFuel r) (initSearch env r))).get? n).isSome
  rw [collectRoutes_get?, if_neg hn, Option.isSome_map]
  exact hknown

theorem updateForwardingTable_hop (env : Env) {r : Router} {d : UInt16} {route : Route}
    (h : (updateForwardingTable env r).routingTable.get? d = some route) :
    ∃ n link, r.neighborTable.get? n = some link ∧ route.nextHop = hopOf r link := by
  obtain ⟨hseeding, heffect⟩ := initSearch_effect env r
  have hstart : GoodHops r.routerId
      (fun hop => ∃ n link, r.neighborTable.get? n = some link ∧ hop = hopOf r link)
      (initSearch env r) := by
    constructor
    · rw [hseeding.visited, startSearch, Table.getD_insert, if_pos rfl]
    · intro v hv hknown
      have hseen := heffect v
      cases hlink : r.neighborTable.get? v with
      | none =>
        rw [hlink] at hseen
        simp [seen, startSearch, Table.get?_insert, hv] at hseen
        simp [hseen.1] at hknown
      | some link =>
        rw [hlink] at hseen
        simp only [seen, Option.map_some, Option.getD_some, Prod.mk.injEq] at hseen
        exact ⟨_, hseen.2.1, v, link, hlink, rfl⟩
  have hend := search_induct env (fun s p minq hq hminq h => GoodHops.visit env hq hminq h)
    (searchFuel r) (initSearch env r) hseeding.queued hstart
  change (collectRoutes env r (search env (searchFuel r) (initSearch env r))).get? d = some route at h
  rw [collectRoutes_get?] at h
  split at h
  · cases h
  · rename_i hd
    obtain ⟨dis, hdis, rfl⟩ := Option.map_eq_some_iff.mp h
    obtain ⟨hop, hhop, n, link, hlink, heq⟩ := hend.hop d hd (by simp [hdis])
    exact ⟨n, link, hlink, (Table.getD_of_get? 0 hhop).trans heq⟩

/-- What `update_forwarding_table` reads: the links with their next hops, and the edges between other
routers. -/
structure SameInputs (r r' : Router) : Prop where
  routerId : r'.routerId = r.routerId
  link : ∀ n, (r'.neighborTable.get? n).map (fun link => (link.cost, hopOf r' link)) =
    (r.neighborTable.get? n).map fun link => (link.cost, hopOf r link)
  edge : ∀ a b, a ≠ r.routerId → b ≠ r.routerId →
    (edgeAt r'.graph a b).map Edge.cost = (edgeAt r.graph a b).map Edge.cost

private theorem updateForwardingTable_portTable (env : Env) (r : Router) :
    (updateForwardingTable env r).portTable = (initSearch env r).portTable := by
  obtain ⟨hseeding, _⟩ := initSearch_effect env r
  refine search_induct env (P := fun s => s.portTable = (initSearch env r).portTable)
    (fun s p minq _ _ h => ?_) (searchFuel r) (initSearch env r) hseeding.queued rfl
  cases hnew : s.visited.getD p.2 false with
  | true => rwa [visit_of_visited env minq hnew]
  | false => rwa [visit_of_new env minq hnew, (relaxAll_keepsMap env p.2 _ _).portTable]

theorem updateForwardingTable_ports (env : Env) {r : Router}
    (hlinked : ∀ n link, r.neighborTable.get? n = some link → (r.portTable.get? link.port).isSome) :
    (updateForwardingTable env r).portTable = r.portTable := by
  have hloop : ∀ (l : List (UInt16 × Link)) (s : Search), s.portTable = r.portTable →
      (∀ e ∈ l, (r.portTable.get? e.2.port).isSome) →
      (l.foldl (seedLink env) s).portTable = r.portTable := by
    intro l
    induction l with
    | nil => exact fun s hs _ => hs
    | cons e l ih =>
      intro s hs hl
      obtain ⟨n, hn⟩ := Option.isSome_iff_exists.mp (hl e (List.mem_cons_self ..))
      refine ih _ ?_ fun e' he' => hl e' (List.mem_cons_of_mem _ he')
      rw [← hs] at hn ⊢
      simp only [seedLink, Table.index_of_get? _ hn]
  rw [updateForwardingTable_portTable]
  exact hloop r.neighborTable.entries (startSearch env r) rfl fun e he =>
    hlinked e.1 e.2 ((Table.mem_entries_iff ..).mp he)

theorem updateForwardingTable_inputs (env : Env) (r : Router) :
    SameInputs r (updateForwardingTable env r) where
  routerId := rfl
  link n := by
    obtain ⟨hseeding, _⟩ := initSearch_effect env r
    have hhop (link : Link) : hopOf (updateForwardingTable env r) link = hopOf r link := by
      rw [hopOf, updateForwardingTable_portTable, hseeding.hops, hopOf]
    simp only [hhop]
    rfl
  edge a b _ _ := by rw [updateForwardingTable_edges]

theorem updateForwardingTable_congr (env env' : Env) {r r' : Router} (h : SameInputs r r') (d : UInt16) :
    (updateForwardingTable env' r').routingTable.get? d =
      (updateForwardingTable env r).routingTable.get? d := by
  obtain ⟨hs, heffect⟩ := initSearch_effect env r
  obtain ⟨hs', heffect'⟩ := initSearch_effect env' r'
  have hvisited (env : Env) (r : Router) (v : UInt16) :
      (startSearch env r).visited.getD v false = decide (v = r.routerId) := by
    rw [startSearch, Table.getD_insert]
    by_cases hv : v = r.routerId <;> simp [hv, Table.getD_eq]
  have hstart (env : Env) (r : Router) (v : UInt16) (hv : v ≠ r.routerId) :
      seen (startSearch env r) v = (none, none, fun _ => 0) := by
    simp [seen, startSearch, Table.get?_insert, hv]
  have hagree : Agree r.routerId (initSearch env' r') (initSearch env r) := by
    constructor
    · intro v hv
      have hlink := h.link v
      rw [heffect, heffect', hstart env r v hv, hstart env' r' v (h.routerId ▸ hv)]
      cases hl : r.neighborTable.get? v <;> cases hl' : r'.neighborTable.get? v <;> simp_all
    · intro v
      rw [hs.visited, hs'.visited, hvisited, hvisited, h.routerId]
    · rw [hs'.visited, hvisited, h.routerId]
      simp
    · intro a b ha hb
      rw [initSearch_graph, initSearch_graph]
      exact h.edge a b ha hb
  have hend := search_agree env' env _ _ _ _ _ rfl (initSearch_work env' r') (initSearch_work env r)
    hs'.queued hs.queued hagree
  change (collectRoutes env' r' (search env' (searchFuel r') (initSearch env' r'))).get? d =
    (collectRoutes env r (search env (searchFuel r) (initSearch env r))).get? d
  rw [collectRoutes_get?, collectRoutes_get?, h.routerId]
  by_cases hd : d = r.routerId
  · rw [if_pos hd, if_pos hd]
  · have hseen := hend.seen d hd
    simp only [seen, Prod.mk.injEq] at hseen
    rw [if_neg hd, if_neg hd, hseen.1, Table.getD_eq, Table.getD_eq, hseen.2.1]

end Comp556.Ls
