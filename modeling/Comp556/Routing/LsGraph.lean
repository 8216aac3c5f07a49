import Comp556.Routing.LinkState

/-!
# The graph of a link-state router

The graph is read edge by edge. What an advertisement leaves behind is compared with the
replacement of its author's adjacency.
-/

namespace Comp556.Ls

/-- The edge from `a` to `b`. -/
def edgeAt (graph : Graph) (a b : UInt16) : Option Edge := (graph.get? a).bind fun edges => edges.get? b

private theorem edgeAt_index (layout : Layout UInt16) (graph : Graph) (u a b : UInt16) :
    edgeAt (graph.index layout u .empty).2 a b = edgeAt graph a b := by
  unfold Table.index
  cases hu : graph.get? u with
  | some edges => rfl
  | none =>
    rw [edgeAt, Table.get?_insert, edgeAt]
    by_cases ha : a = u
    · simp [ha, hu]
    · simp [ha]

private theorem edgeAt_setEdge (env : Env) (graph : Graph) (u v : UInt16) (edge : Edge) (a b : UInt16) :
    edgeAt (setEdge env graph u v edge) a b = if a = u ∧ b = v then some edge else edgeAt graph a b := by
  rw [edgeAt, setEdge, Table.get?_modify]
  by_cases ha : a = u
  · subst ha
    simp only [true_and, if_true, Option.bind_some, Table.get?_insert]
    by_cases hb : b = v
    · simp [hb]
    · rw [if_neg hb, if_neg hb, edgeAt, Table.getD_eq]
      cases graph.get? a <;> simp
  · simp [ha, edgeAt]

theorem edgeAt_addEdge (env : Env) (u v weight : UInt16) (graph : Graph) (a b : UInt16) :
    edgeAt (addEdge env u v weight graph) a b =
      if (a = u ∧ b = v) ∨ (a = v ∧ b = u) then some (newEdge env weight) else edgeAt graph a b := by
  rw [addEdge, edgeAt_setEdge, edgeAt_setEdge]
  by_cases hback : a = v ∧ b = u
  · simp [hback]
  · by_cases hforth : a = u ∧ b = v <;> simp [hback, hforth]

theorem edgeAt_delNode (nodeId : UInt16) (graph : Graph) (a b : UInt16) :
    edgeAt (delNode nodeId graph) a b =
      if a = nodeId then none else (edgeAt graph a b).filter fun edge => edge.cost ≠ nodeId := by
  rw [edgeAt, delNode, Table.get?_erase]
  by_cases ha : a = nodeId
  · simp [ha]
  · rw [if_neg ha, if_neg ha, Table.get?_mapValues, edgeAt]
    cases graph.get? a with
    | none => simp
    | some edges => simp [Table.get?_filter]

/-- The edges after links from `u` have been added one by one: the last one to a router counts. -/
theorem edgeAt_addEdges (env : Env) (u : UInt16) (l : List (UInt16 × UInt16)) (graph : Graph)
    (a b : UInt16) :
    edgeAt (l.foldl (fun graph entry => addEdge env u entry.1 entry.2 graph) graph) a b =
      if a = u then ((l.reverse.lookup b).map (newEdge env)).or (edgeAt graph a b)
      else if b = u then ((l.reverse.lookup a).map (newEdge env)).or (edgeAt graph a b)
      else edgeAt graph a b := by
  induction l generalizing graph with
  | nil => simp
  | cons e l ih =>
    have hlookup (k : UInt16) : (e :: l).reverse.lookup k =
        (l.reverse.lookup k).or (if k = e.1 then some e.2 else none) := by
      rw [List.reverse_cons, List.lookup_append, List.lookup_cons, List.lookup_nil]
      by_cases hk : k = e.1
      · simp [hk]
      · simp [hk, beq_false_of_ne hk]
    rw [List.foldl_cons, ih, edgeAt_addEdge, hlookup, hlookup]
    by_cases ha : a = u
    · subst ha
      rw [if_pos rfl, if_pos rfl]
      have hcond : (a = a ∧ b = e.1 ∨ a = e.1 ∧ b = a) ↔ b = e.1 := by
        constructor
        · rintro (h | h)
          · exact h.2
          · exact h.2.trans h.1
        · exact fun h => .inl ⟨rfl, h⟩
      rw [if_congr hcond rfl rfl]
      cases l.reverse.lookup b <;> by_cases hb : b = e.1 <;> simp [hb]
    · by_cases hb : b = u
      · subst hb
        simp only [ha, if_false, if_true, false_and, false_or, and_true]
        cases l.reverse.lookup a <;> by_cases hae : a = e.1 <;> simp [hae]
      · simp [ha, hb]

/-- The two searches differ at most in what is recorded about routers. -/
def KeepsMap (s s' : Search) : Prop :=
  s' = { s with distance := s'.distance, nextHop := s'.nextHop, minq := s'.minq }

namespace KeepsMap

variable {s s' s'' : Search}

theorem refl (s : Search) : KeepsMap s s := rfl

theorem graph (h : KeepsMap s s') : s'.graph = s.graph := by rw [h]

theorem portTable (h : KeepsMap s s') : s'.portTable = s.portTable := by rw [h]

theorem visited (h : KeepsMap s s') : s'.visited = s.visited := by rw [h]

theorem trans (h : KeepsMap s s') (h' : KeepsMap s' s'') : KeepsMap s s'' := by
  unfold KeepsMap at *
  rw [h'] at *
  rw [h]

end KeepsMap

/-- The path over an edge of weight `w` from a router at distance `du` is shorter. -/
def improves (old : Option UInt16) (du w : UInt16) : Bool :=
  match old with
  | none => true
  | some dv => dv.toNat > du.toNat + w.toNat

theorem relax_eq (env : Env) (u : UInt16) (s : Search) (edge : UInt16 × Edge) :
    relax env u s edge =
      if improves (s.distance.get? edge.1) (s.distance.getD u 0) edge.2.cost then
        { s with
          distance := s.distance.insert env.layout edge.1 (s.distance.getD u 0 + edge.2.cost)
          nextHop := s.nextHop.insert env.layout edge.1 (s.nextHop.getD u 0)
          minq := push s.minq (s.distance.getD u 0 + edge.2.cost, edge.1) }
      else s := rfl

theorem relax_cases (env : Env) (u : UInt16) (s : Search) (edge : UInt16 × Edge) :
    relax env u s edge = s ∨ ∃ distance nextHop p, relax env u s edge =
      { s with distance := distance, nextHop := nextHop, minq := push s.minq p } := by
  rw [relax_eq]
  split
  · exact .inr ⟨_, _, _, rfl⟩
  · exact .inl rfl

theorem relaxAll_keepsMap (env : Env) (u : UInt16) (l : List (UInt16 × Edge)) (s : Search) :
    KeepsMap s (l.foldl (relax env u) s) := by
  induction l generalizing s with
  | nil => exact .refl s
  | cons e l ih =>
    have hstep : KeepsMap s (relax env u s e) := by
      rcases relax_cases env u s e with heq | ⟨distance, nextHop, p, heq⟩ <;> rw [heq] <;> rfl
    exact hstep.trans (ih _)

theorem visit_edges (env : Env) (s : Search) (u : UInt16) (minq : List (UInt16 × UInt16)) (a b : UInt16) :
    edgeAt (visit env s u minq).graph a b = edgeAt s.graph a b := by
  unfold visit
  dsimp only
  split
  · rfl
  · rw [(relaxAll_keepsMap env u _ _).graph]
    exact edgeAt_index ..

private theorem search_edges (env : Env) (fuel : Nat) (s : Search) (a b : UInt16) :
    edgeAt (search env fuel s).graph a b = edgeAt s.graph a b := by
  induction fuel generalizing s with
  | zero => rfl
  | succ fuel ih =>
    unfold search
    split
    · rfl
    · rw [ih, visit_edges]

theorem initSearch_graph (env : Env) (r : Router) : (initSearch env r).graph = r.graph := by
  have hfold : ∀ (l : List (UInt16 × Link)) (s : Search), (l.foldl (seedLink env) s).graph = s.graph := by
    intro l
    induction l with
    | nil => exact fun _ => rfl
    | cons e l ih => exact fun s => ih (seedLink env s e)
  exact hfold _ _

/-- `graph[u]` enters empty rows at most. -/
theorem updateForwardingTable_edges (env : Env) (r : Router) (a b : UInt16) :
    edgeAt (updateForwardingTable env r).graph a b = edgeAt r.graph a b := by
  change edgeAt (search env (searchFuel r) (initSearch env r)).graph a b = _
  rw [search_edges, initSearch_graph]

def listedCost (msg : Packet) (v : UInt16) : Option UInt16 :=
  (readEntries msg.block.memory msg.size).reverse.lookup v

private theorem recvLS_edges (env : Env) (port : UInt16) {msg : Packet} {r : Router}
    (hnew : isOld r msg.block.memory = false) (a b : UInt16) :
    edgeAt (recvLS env port msg r).1.graph a b =
      edgeAt (recvGraph env msg r.graph) a b := by
  have hgraph : (recvLS env port msg r).1.graph = (updateForwardingTable env { r with
      maxSequenceNum := r.maxSequenceNum.insert env.layout (sourceOf msg.block.memory)
        (sequenceOf msg.block.memory)
      graph := recvGraph env msg r.graph }).graph := by
    simp [recvLS, hnew]
  rw [hgraph, updateForwardingTable_edges]

private theorem edgeAt_recvGraph (env : Env) (msg : Packet) (graph : Graph) (a b : UInt16) :
    let u := sourceOf msg.block.memory
    edgeAt (recvGraph env msg graph) a b =
      if a = u then (listedCost msg b).map (newEdge env)
      else if b = u then ((listedCost msg a).map (newEdge env)).or
        ((edgeAt graph a b).filter fun edge => edge.cost ≠ u)
      else (edgeAt graph a b).filter fun edge => edge.cost ≠ u := by
  dsimp only
  rw [recvGraph, edgeAt_addEdges, edgeAt_delNode]
  by_cases ha : a = sourceOf msg.block.memory <;> simp [ha, listedCost]

/-- The edges at `u` are the listed ones, in both directions, and no other edge has changed. -/
def Replaces (u : UInt16) (listed : UInt16 → Option UInt16) (before after : Graph) : Prop :=
  (∀ v, (edgeAt after u v).map Edge.cost = listed v ∧ (edgeAt after v u).map Edge.cost = listed v) ∧
    ∀ a b, a ≠ u → b ≠ u → edgeAt after a b = edgeAt before a b

/-- The adjacency of the author is replaced, and nothing else, exactly if the costs in the graph agree with
the author's id where an edge has to go, and nowhere else. -/
theorem recvLS_replaces_iff (env : Env) (port : UInt16) (msg : Packet) (r : Router)
    (hnew : isOld r msg.block.memory = false) :
    let u := sourceOf msg.block.memory
    Replaces u (listedCost msg) r.graph (recvLS env port msg r).1.graph ↔
      (∀ v edge, v ≠ u → listedCost msg v = none → edgeAt r.graph v u = some edge → edge.cost = u) ∧
      ∀ a b edge, a ≠ u → b ≠ u → edgeAt r.graph a b = some edge → edge.cost ≠ u := by
  dsimp only
  simp only [Replaces, recvLS_edges env port hnew, edgeAt_recvGraph, if_true]
  generalize sourceOf msg.block.memory = u
  have hcost (o : Option UInt16) : (o.map (newEdge env)).map Edge.cost = o := by
    cases o <;> rfl
  constructor
  · rintro ⟨hown, hothers⟩
    constructor
    · intro v edge hv hlisted hedge
      have hback := (hown v).2
      rw [if_neg hv, hlisted, hedge] at hback
      by_contra hne
      simp [Option.filter, hne] at hback
    · intro a b edge ha hb hedge hcosts
      have hkept := hothers a b ha hb
      rw [if_neg ha, if_neg hb, hedge] at hkept
      simp [Option.filter, hcosts] at hkept
  · rintro ⟨hstale, hothers⟩
    refine ⟨fun v => ⟨?_, ?_⟩, fun a b ha hb => ?_⟩
    · exact hcost _
    · by_cases hv : v = u
      · rw [if_pos hv, hv, hcost]
      · rw [if_neg hv]
        cases hlisted : listedCost msg v with
        | some cost => rfl
        | none =>
          cases hedge : edgeAt r.graph v u with
          | none => rfl
          | some edge => simp [Option.filter, hstale v edge hv hlisted hedge]
    · rw [if_neg ha, if_neg hb]
      cases hedge : edgeAt r.graph a b with
      | none => rfl
      | some edge => simp [Option.filter, hothers a b edge ha hb hedge]

def firstAdvertisement : Packet := samplePacket [(0, 4), (5, 2), (9, 0), (13, 3), (15, 7)] 16

def secondAdvertisement : Packet := samplePacket [(0, 4), (5, 2), (9, 1), (13, 4), (15, 9)] 16

/-- A router that has heard of the link from 2 to 3, and of one from 5 to 6. -/
def heardRouter : Router :=
  let r := (recvLS (sampleEnv 1) 0 firstAdvertisement (Router.init 1 1 .ls)).1
  (recvLS (sampleEnv 2) 0 (samplePacket [(0, 4), (5, 5), (13, 6), (15, 4)] 16) r).1

/-- Router 2 lists its link to 3 again, at cost 8, and one to 4. -/
def widerAdvertisement : Packet := samplePacket [(0, 4), (5, 2), (9, 1), (13, 3), (15, 8), (17, 4), (19, 9)] 20

private theorem exists_mem_of_edgeAt {graph : Graph} {a b : UInt16} {edge : Edge}
    (h : edgeAt graph a b = some edge) :
    ∃ row ∈ graph.entries, row.1 = a ∧ (b, edge) ∈ row.2.entries := by
  obtain ⟨edges, hedges, hedge⟩ := Option.bind_eq_some_iff.mp h
  exact ⟨(a, edges), (Table.mem_entries_iff ..).mpr hedges, rfl, (Table.mem_entries_iff ..).mpr hedge⟩

theorem widerAdvertisement_replaces :
    let after := (recvLS (sampleEnv 3) 0 widerAdvertisement heardRouter).1
    edgeAt heardRouter.graph 3 2 = some ⟨7, 45001⟩ ∧
      Replaces 2 (listedCost widerAdvertisement) heardRouter.graph after.graph := by
  refine ⟨by decide +kernel, (recvLS_replaces_iff (sampleEnv 3) 0 widerAdvertisement heardRouter
    (by decide +kernel)).mpr ⟨fun v edge _ hlisted hedge => ?_, fun a b edge ha hb hedge => ?_⟩⟩
  · obtain ⟨row, hrow, rfl, hin⟩ := exists_mem_of_edgeAt hedge
    have hback : ∀ row ∈ heardRouter.graph.entries, ∀ e ∈ row.2.entries,
        e.1 = 2 → (listedCost widerAdvertisement row.1).isSome := by decide +kernel
    have hthere := hback row hrow _ hin rfl
    rw [hlisted] at hthere
    cases hthere
  · obtain ⟨row, hrow, rfl, hin⟩ := exists_mem_of_edgeAt hedge
    have hothers : ∀ row ∈ heardRouter.graph.entries, ∀ e ∈ row.2.entries, row.1 ≠ 2 → e.1 ≠ 2 →
      e.2.cost ≠ 2 := by
      decide +kernel
    exact hothers row hrow _ hin ha hb

/-- The edge from 3 back to 2 outlives the advertisement that no longer lists it. -/
theorem stale_edge_stays :
    let before := (recvLS (sampleEnv 1) 0 firstAdvertisement (Router.init 1 1 .ls)).1
    let after := (recvLS (sampleEnv 2) 0 secondAdvertisement before).1
    isOld before secondAdvertisement.block.memory = false ∧
      sourceOf secondAdvertisement.block.memory = 2 ∧ listedCost secondAdvertisement 3 = none ∧
      edgeAt after.graph 3 2 = some ⟨7, 45001⟩ := by
  decide +kernel

end Comp556.Ls
