import Comp556.Routing.DvRouter

/-!
# The timeout sweep of a distance-vector router

The sweep over `neighbor_table`, `earseDV` and `refresh` work one after the other, and a route can be
hit by each of them. What they do together depends on the next hop and the deadline of the route alone.
-/

namespace Comp556.Dv

open Router

variable {env : Env} {r r' : Router} {d : UInt16}

/-- The next hop of the route to `d` is left, and the route is direct or its own deadline has not passed. -/
def Outlives (env : Env) (links : NeighborTable) (d : UInt16) (route : Route) (deadline : Option UInt32) :
    Prop :=
  (links.get? route.nextHop).isSome ∧ (route.nextHop = d ∨ ∃ time, deadline = some time ∧ env.time < time)

/-- A sweep at the time of `env`. -/
structure Swept (env : Env) (r r' : Router) : Prop where
  neighbors : ∀ n link, r'.neighborTable.get? n = some link ↔
    r.neighborTable.get? n = some link ∧ env.time < link.timeout
  ports : ∀ p n, r'.portTable.get? p = some n ↔
    r.portTable.get? p = some n ∧ (r'.neighborTable.get? n).isSome
  kept : ∀ d route, r.routingTable.get? d = some route →
    Outlives env r'.neighborTable d route (r.dvTime.get? d) → r'.routingTable.get? d = some route
  lost : ∀ d route, r.routingTable.get? d = some route →
    ¬ Outlives env r'.neighborTable d route (r.dvTime.get? d) →
      r'.routingTable.get? d = (r'.neighborTable.get? d).map fun link => ⟨link.cost, d⟩
  no_new : ∀ d, r.routingTable.get? d = none → r'.routingTable.get? d = none
  deadlines : ∀ d route, r'.routingTable.get? d = some route →
    ∃ deadline, r'.dvTime.get? d = some deadline ∧ env.time < deadline

private theorem renewed_gt (h : env.time.toNat + 45000 < 2 ^ 32) : env.time < renewed env := by
  have hsum : (renewed env).toNat = env.time.toNat + 45000 := by
    rw [renewed, UInt32.toNat_add]
    exact Nat.mod_eq_of_lt h
  rw [UInt32.lt_iff_toNat_lt]
  omega

section Entry

variable {links : NeighborTable} {toEarse : List UInt16} {route : Route} {deadline : UInt32}

private theorem refreshed_fallback :
    refreshed env links d (fallback env links d) = fallback env links d := by
  cases hlink : links.get? d with
  | none => simp [fallback, hlink, refreshed]
  | some link => simp [fallback, hlink, refreshed]

private theorem refreshed_earsed (hnow : env.time < renewed env)
    (hgone : route.nextHop ∈ toEarse ↔ links.get? route.nextHop = none) :
    (Outlives env links d route (some deadline) →
      refreshed env links d (earsed env toEarse links d (some route, some deadline)) =
        (some route, some (if d = route.nextHop then renewed env else deadline))) ∧
    (¬ Outlives env links d route (some deadline) →
      refreshed env links d (earsed env toEarse links d (some route, some deadline)) =
        fallback env links d) := by
  by_cases hdead : route.nextHop ∈ toEarse
  · have hnone := hgone.mp hdead
    constructor
    · intro hout
      simp [Outlives, hnone] at hout
    · intro _
      simp only [earsed, if_pos hdead]
      exact refreshed_fallback
  · have halive : (links.get? route.nextHop).isSome := by
      rw [Option.isSome_iff_ne_none]
      exact fun hnone => hdead (hgone.mpr hnone)
    simp only [earsed, if_neg hdead, refreshed]
    by_cases hdirect : d = route.nextHop
    · have hout : Outlives env links d route (some deadline) := ⟨halive, .inl hdirect.symm⟩
      simp [hdirect, hnow, hdirect ▸ hout]
    · rw [if_neg hdirect]
      constructor
      · rintro ⟨-, hout⟩
        obtain ⟨time, heq, hlater⟩ := hout.resolve_left (Ne.symm hdirect)
        obtain rfl := Option.some.inj heq
        exact if_neg (UInt32.not_le.mpr hlater)
      · intro hnot
        have hdue : env.time ≥ deadline := by
          apply UInt32.not_lt.mp
          exact fun hlater => hnot ⟨halive, .inr ⟨deadline, rfl, hlater⟩⟩
        exact if_pos hdue

private theorem fallback_route : (fallback env links d).1 = (links.get? d).map fun link => ⟨link.cost, d⟩ := by
  unfold fallback
  cases links.get? d with
  | none => rfl
  | some link => rfl

private theorem route_kept (hnow : env.time < renewed env)
    (hgone : route.nextHop ∈ toEarse ↔ links.get? route.nextHop = none)
    (hout : Outlives env links d route (some deadline)) :
    (refreshed env links d (earsed env toEarse links d (some route, some deadline))).1 = some route := by
  rw [(refreshed_earsed hnow hgone).1 hout]

private theorem route_lost (hnow : env.time < renewed env)
    (hgone : route.nextHop ∈ toEarse ↔ links.get? route.nextHop = none)
    (hnot : ¬ Outlives env links d route (some deadline)) :
    (refreshed env links d (earsed env toEarse links d (some route, some deadline))).1 =
      (links.get? d).map fun link => ⟨link.cost, d⟩ := by
  rw [(refreshed_earsed hnow hgone).2 hnot]
  exact fallback_route

/-- `earseDV` takes routes and deadlines away together. -/
private theorem earsed_isSome {entry : Option Route × Option UInt32} (h : entry.2.isSome = entry.1.isSome) :
    (earsed env toEarse links d entry).2.isSome = (earsed env toEarse links d entry).1.isSome := by
  rcases earsed_cases env toEarse links d entry with hlost | hkept
  · rw [hlost]
    exact fallback_isSome env links d
  · rwa [hkept]

private theorem refreshed_deadline (hnow : env.time < renewed env) {entry : Option Route × Option UInt32}
    (htime : entry.2.isSome = entry.1.isSome) {route' : Route}
    (h : (refreshed env links d entry).1 = some route') :
    ∃ deadline', (refreshed env links d entry).2 = some deadline' ∧ env.time < deadline' := by
  obtain ⟨_ | route, _ | deadline⟩ := entry
  · cases h
  · cases h
  · cases htime
  · simp only [refreshed] at h ⊢
    by_cases hdue : env.time ≥ if d = route.nextHop then renewed env else deadline
    · rw [if_pos hdue] at h ⊢
      cases hlink : links.get? d with
      | none => simp [fallback, hlink] at h
      | some link => exact ⟨renewed env, by simp [fallback, hlink], hnow⟩
    · rw [if_neg hdue]
      exact ⟨_, rfl, UInt32.not_le.mp hdue⟩

end Entry

private theorem mem_toEarse_iff (env : Env) {n : UInt16} (hn : (r.neighborTable.get? n).isSome) :
    n ∈ (expired env r.neighborTable).map Prod.fst ↔ (dropExpired env r).neighborTable.get? n = none := by
  obtain ⟨link, hlink⟩ := Option.isSome_iff_exists.mp hn
  rw [mem_expired_keys, dropExpired_neighborTable, hlink]
  cases halive : alive env link with
  | true => simp [halive, Option.filter]
  | false => simp [halive, Option.filter]

private theorem dropExpired_neighbor_iff (env : Env) (r : Router) (n : UInt16) (link : Link) :
    (dropExpired env r).neighborTable.get? n = some link ↔
      r.neighborTable.get? n = some link ∧ env.time < link.timeout := by
  rw [dropExpired_neighborTable, Option.filter_eq_some_iff]
  simp [alive]

private theorem dropExpired_port_iff (hinverse : Inverse r) (env : Env) (p n : UInt16) :
    (dropExpired env r).portTable.get? p = some n ↔
      r.portTable.get? p = some n ∧ ((dropExpired env r).neighborTable.get? n).isSome := by
  rw [hinverse.dropExpired env, hinverse]
  constructor
  · rintro ⟨link, hlink, hport⟩
    have hbefore := (dropExpired_neighbor_iff ..).mp hlink
    exact ⟨⟨link, hbefore.1, hport⟩, by rw [hlink]; rfl⟩
  · rintro ⟨⟨link, hlink, hport⟩, hleft⟩
    obtain ⟨link', hlink'⟩ := Option.isSome_iff_exists.mp hleft
    have hbefore := (dropExpired_neighbor_iff ..).mp hlink'
    obtain rfl := Option.some.inj (hlink.symm.trans hbefore.1)
    exact ⟨link, hlink', hport⟩

/-- Exact effect of `update_timeout`. -/
theorem updateTimeout_sweeps (env : Env) (r : Router) (hmode : r.protocolType = .dv) (hinverse : Inverse r)
    (hkeys : ∀ d, d ∈ r.dvTime.keys ↔ d ∈ r.routingTable.keys)
    (hhops : ∀ d route, r.routingTable.get? d = some route → route.nextHop ∈ r.neighborTable.keys)
    (htime : env.time.toNat + 45000 < 2 ^ 32) :
    ∃ r' calls, updateTimeout env r = some (r', calls) ∧ Swept env r r' := by
  simp only [Table.mem_keys_iff] at hkeys hhops
  have hnow := renewed_gt htime
  obtain ⟨r', calls, hrun, hkeeps, heffect⟩ := updateTimeout_effect env r hmode fun d => (hkeys d).mp
  have hgone (d : UInt16) (route : Route) (hroute : r.routingTable.get? d = some route) :=
    mem_toEarse_iff env (hhops d route hroute)
  have hbefore (d : UInt16) (route : Route) (hroute : r.routingTable.get? d = some route) :
      ∃ deadline, r.dvTime.get? d = some deadline ∧ entryAt r d = (some route, some deadline) := by
    obtain ⟨deadline, hd⟩ := Option.isSome_iff_exists.mp ((hkeys d).mpr (by rw [hroute]; rfl))
    exact ⟨deadline, hd, by rw [entryAt, hroute, hd]⟩
  have hroutes (d : UInt16) := congrArg Prod.fst (heffect d)
  have htimes (d : UInt16) := congrArg Prod.snd (heffect d)
  refine ⟨r', calls, hrun, ?_⟩
  constructor
  case neighbors =>
    rw [hkeeps.neighborTable]
    exact dropExpired_neighbor_iff env r
  case ports =>
    rw [hkeeps.neighborTable, hkeeps.portTable]
    exact dropExpired_port_iff hinverse env
  case kept =>
    intro d route hroute hout
    obtain ⟨deadline, hd, hentry⟩ := hbefore d route hroute
    rw [hd, hkeeps.neighborTable] at hout
    apply (hroutes d).trans
    rw [hentry]
    exact route_kept hnow (hgone d route hroute) hout
  case lost =>
    intro d route hroute hout
    obtain ⟨deadline, hd, hentry⟩ := hbefore d route hroute
    rw [hkeeps.neighborTable]
    rw [hd, hkeeps.neighborTable] at hout
    apply (hroutes d).trans
    rw [hentry]
    exact route_lost hnow (hgone d route hroute) hout
  case no_new =>
    intro d hroute
    apply (hroutes d).trans
    simp [entryAt, hroute, earsed, refreshed]
  case deadlines =>
    intro d route hroute
    have hmatched : (entryAt r d).2.isSome = (entryAt r d).1.isSome := Bool.eq_iff_iff.mpr (hkeys d)
    obtain ⟨deadline, hd, hlater⟩ :=
      refreshed_deadline hnow (earsed_isSome hmatched) ((hroutes d).symm.trans hroute)
    exact ⟨deadline, (htimes d).trans hd, hlater⟩

/-- Router 10 is late, router 20 is not; router 20 has been routed over router 10, and 30 over 20. -/
def lateRouter : Router :=
  { Router.init 2 1 .dv with
    neighborTable := (Table.empty.insert (.front _) 10 ⟨5, 0, 15000⟩).insert (.front _) 20 ⟨7, 1, 30000⟩
    portTable := (Table.empty.insert (.front _) 0 10).insert (.front _) 1 20
    routingTable := [(10, ⟨5, 10⟩), (20, ⟨6, 10⟩), (30, ⟨9, 20⟩)].foldl
      (fun t e => t.insert (.front _) e.1 e.2) .empty
    dvTime := [(10, 50000), (20, 50000), (30, 50000)].foldl (fun t e => t.insert (.front _) e.1 e.2) .empty }

theorem lateRouter_swept : ∃ r' calls, updateTimeout (sampleEnv 20000) lateRouter = some (r', calls) ∧
    r'.routingTable.get? 20 = some ⟨7, 20⟩ ∧ r'.routingTable.get? 30 = some ⟨9, 20⟩ := by
  have hports : lateRouter.portTable.entries.all
      (fun e => (lateRouter.neighborTable.get? e.2).map Link.port = some e.1) = true := by decide
  have hlinks : ∀ e ∈ lateRouter.neighborTable.entries,
      lateRouter.portTable.get? e.2.port = some e.1 := by decide
  have hhops : ∀ e ∈ lateRouter.routingTable.entries, e.2.nextHop ∈ lateRouter.neighborTable.keys := by
    decide
  have hinverse : Inverse lateRouter := by
    intro p n
    constructor
    · intro hp
      have hport := List.all_eq_true.mp hports (p, n) ((Table.mem_entries_iff ..).mpr hp)
      exact Option.map_eq_some_iff.mp (of_decide_eq_true hport)
    · rintro ⟨link, hlink, rfl⟩
      exact hlinks (n, link) ((Table.mem_entries_iff ..).mpr hlink)
  have hkeys : lateRouter.dvTime.keys = lateRouter.routingTable.keys := by decide
  obtain ⟨r', calls, hrun, hswept⟩ := updateTimeout_sweeps (sampleEnv 20000) lateRouter rfl hinverse
    (fun d => by rw [hkeys]) (fun d route hroute => hhops (d, route) ((Table.mem_entries_iff ..).mpr hroute))
    (by decide)
  have hleft : r'.neighborTable.get? 20 = some ⟨7, 1, 30000⟩ := (hswept.neighbors ..).mpr (by decide)
  have hlate : ¬ (r'.neighborTable.get? 10).isSome := by
    intro hsome
    obtain ⟨link, hlink⟩ := Option.isSome_iff_exists.mp hsome
    obtain ⟨hbefore, hlater⟩ := (hswept.neighbors ..).mp hlink
    obtain rfl := Option.some.inj (hbefore.symm.trans (show _ = some ⟨5, 0, 15000⟩ by decide))
    exact absurd hlater (by decide)
  refine ⟨r', calls, hrun, ?_, ?_⟩
  · rw [hswept.lost 20 ⟨6, 10⟩ (by decide) (fun hout => hlate hout.1), hleft]
    rfl
  · exact hswept.kept 30 ⟨9, 20⟩ (by decide) ⟨by rw [hleft]; rfl, .inr ⟨50000, by decide, by decide⟩⟩

end Comp556.Dv
