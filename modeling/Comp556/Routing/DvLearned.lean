import Comp556.Routing.DvInvariant

/-!
# The cost of a learned route

A route through the sender of a packet costs the link to the sender and the rest of the way. The rule
of `recv` for the route to the sender itself takes the way back for the way there.
-/

namespace Comp556.Dv

open Router

variable {env : Env} {r : Router} {sourceId c back d : UInt16} {listed : Option UInt16}

/-- A route is as it was, or has the cost of the path through the sender, or is the link to it. -/
def PathCost (sourceId c : UInt16) (listed : Option UInt16) (d : UInt16) (before after : Option Route) : Prop :=
  after = before ∨
    (∃ a cost : UInt16, listed = some a ∧ a ≠ infinityCost ∧ cost.toNat = c.toNat + a.toNat ∧
      after = some ⟨cost, sourceId⟩) ∨
    d = sourceId ∧ after = some ⟨c, sourceId⟩

/-- The route to the sender goes over another router, at more than the sender lists for the way back
(0 if it does not list it). That is not the cost of the link, and the sender lists no cost for itself. -/
def TakesBack (r : Router) (sourceId c back : UInt16) (listed : Option UInt16) : Prop :=
  ∃ route, r.routingTable.get? sourceId = some route ∧ route.nextHop ≠ sourceId ∧ route.cost > back ∧
    back ≠ c ∧ ∀ a, listed = some a → a = infinityCost

/-- The route on record is neither through the sender nor dearer than the path through it. -/
def KeepsOld (sourceId back totalCost d : UInt16) (before : Option Route) : Prop :=
  ∃ route, before = some route ∧ ¬ viaSource sourceId back d route ∧ route.cost ≤ totalCost

theorem learned_preferred (env : Env) (sourceId back totalCost d : UInt16)
    (entry : Option Route × Option UInt32) :
    (KeepsOld sourceId back totalCost d entry.1 →
      (learned env sourceId totalCost (preferred sourceId back d entry)).1 = entry.1) ∧
    (¬ KeepsOld sourceId back totalCost d entry.1 →
      (learned env sourceId totalCost (preferred sourceId back d entry)).1 = some ⟨totalCost, sourceId⟩) := by
  obtain ⟨_ | route, time⟩ := entry
  · refine ⟨fun hkept => ?_, fun _ => rfl⟩
    obtain ⟨route, hroute, -⟩ := hkept
    cases hroute
  constructor
  · rintro ⟨route', hroute, hnot, hcost⟩
    obtain rfl := Option.some.inj hroute
    obtain ⟨hhop, hback⟩ := not_or.mp hnot
    have hkept : ¬ (d = sourceId ∧ route.cost > back ∧ route.nextHop ≠ sourceId) := fun h => hback ⟨h.1, h.2.1⟩
    have hold : ¬ ((route.nextHop = sourceId ∧ route.cost ≠ totalCost) ∨ route.cost > totalCost) :=
      fun h => h.elim (fun h => hhop h.1) (UInt16.not_lt.mpr hcost)
    simp only [preferred, if_neg hkept, learned, if_neg hold, if_neg hhop]
  · intro hnew
    have hdear (hnot : ¬ viaSource sourceId back d route) : route.cost > totalCost :=
      UInt16.not_le.mp fun hcost => hnew ⟨route, rfl, hnot, hcost⟩
    simp only [preferred]
    split
    · by_cases hsame : back = totalCost
      · subst hsame
        simp [learned]
      · simp [learned, hsame]
    · rename_i hkept
      by_cases hhop : route.nextHop = sourceId
      · obtain ⟨cost, hop⟩ := route
        obtain rfl : hop = sourceId := hhop
        by_cases hsame : cost = totalCost
        · subst hsame
          simp [learned]
        · simp [learned, hsame]
      · have hlower := hdear fun h => h.elim hhop fun h => hkept ⟨h.1, h.2, hhop⟩
        simp [learned, hlower]

private theorem preferred_eq (sourceId back d : UInt16) (entry : Option Route × Option UInt32) :
    (preferred sourceId back d entry).1 = entry.1 ∨
      d = sourceId ∧ (preferred sourceId back d entry).1 = some ⟨back, sourceId⟩ ∧
        ∃ route, entry.1 = some route ∧ route.nextHop ≠ sourceId ∧ route.cost > back := by
  obtain ⟨_ | route, time⟩ := entry
  · exact .inl rfl
  · simp only [preferred]
    split
    · rename_i htakes
      exact .inr ⟨htakes.1, rfl, route, rfl, htakes.2.2, htakes.2.1⟩
    · exact .inl rfl

private theorem received_pathCost (hfits : ∀ a, listed = some a → a ≠ infinityCost → c.toNat + a.toNat < 65535)
    (hsource : sourceId ≠ r.routerId) (hback : ¬ TakesBack r sourceId c back listed ∨ d ≠ sourceId) :
    PathCost sourceId c listed d (r.routingTable.get? d)
      (received env r.routerId sourceId c back listed d (entryAt r d)).1 := by
  have hskipped (hunlisted : d = r.routerId ∨ ∀ a, listed = some a → a = infinityCost) :
      PathCost sourceId c listed d (r.routingTable.get? d) (preferred sourceId back d (entryAt r d)).1 := by
    rcases preferred_eq sourceId back d (entryAt r d) with hsame | ⟨rfl, hnew, route, hroute, hhop, hcost⟩
    · exact .inl hsame
    · have hcosts : back = c := by
        by_contra hne
        exact hback.elim (fun h => h ⟨route, hroute, hhop, hcost, hne, hunlisted.resolve_left hsource⟩)
          fun h => h rfl
      exact .inr (.inr ⟨rfl, hcosts ▸ hnew⟩)
  cases listed with
  | none => exact hskipped (.inr (by simp))
  | some a =>
    simp only [received]
    split
    · rename_i hunlisted
      apply hskipped
      rcases hunlisted with hself | hinf
      · exact .inl hself
      · exact .inr fun a' ha => Option.some.inj ha ▸ hinf
    · rename_i hlisted
      obtain ⟨-, hfinite⟩ := not_or.mp hlisted
      obtain ⟨hkept, hnew⟩ := learned_preferred env sourceId back (a + c) d (entryAt r d)
      by_cases hold : KeepsOld sourceId back (a + c) d (entryAt r d).1
      · exact .inl (hkept hold)
      · refine .inr (.inl ⟨a, a + c, rfl, hfinite, ?_, hnew hold⟩)
        have := hfits a rfl hfinite
        rw [UInt16.toNat_add, Nat.mod_eq_of_lt (by omega), Nat.add_comm]

theorem TakesBack.received (h : TakesBack r sourceId c back listed) :
    ¬ PathCost sourceId c listed sourceId (r.routingTable.get? sourceId)
      (received env r.routerId sourceId c back listed sourceId (entryAt r sourceId)).1 := by
  obtain ⟨route, hroute, hhop, hcost, hne, hunlisted⟩ := h
  have hpreferred : (preferred sourceId back sourceId (entryAt r sourceId)).1 = some ⟨back, sourceId⟩ := by
    simp [entryAt, hroute, preferred, hhop, hcost]
  have hafter : (Dv.received env r.routerId sourceId c back listed sourceId (entryAt r sourceId)).1 =
      some ⟨back, sourceId⟩ := by
    cases listed with
    | none => exact hpreferred
    | some a =>
      simp only [Dv.received]
      rw [if_pos (.inr (hunlisted a rfl))]
      exact hpreferred
  rw [hafter, hroute]
  rintro (hsame | ⟨a, cost, ha, hfinite, -⟩ | ⟨-, hlink⟩)
  · exact hhop (congrArg Route.nextHop (Option.some.inj hsame)).symm
  · exact hfinite (hunlisted a ha)
  · exact hne (congrArg Route.cost (Option.some.inj hlink))

/-- The cost of what `recv` learns. -/
theorem recv_pathCost_iff (env : Env) (port : UInt16) (msg : Memory) (size : UInt16) {r : Router} {link : Link}
    (htables : TablesMatch r) (hport : r.portTable.get? port = some (ntohs (msg.load16 4)))
    (hlink : r.neighborTable.get? (ntohs (msg.load16 4)) = some link)
    (hfits : ∀ d a, (readTable env msg size).get? d = some a → a ≠ infinityCost →
      link.cost.toNat + a.toNat < 65535) :
    ∃ r' calls, recv env port msg size r = some (r', calls) ∧
      ((∀ d, PathCost (ntohs (msg.load16 4)) link.cost ((readTable env msg size).get? d) d
        (r.routingTable.get? d) (r'.routingTable.get? d)) ↔
      ¬ TakesBack r (ntohs (msg.load16 4)) link.cost ((readTable env msg size).getD r.routerId 0)
        ((readTable env msg size).get? (ntohs (msg.load16 4)))) := by
  obtain ⟨r', calls, hrun, -, heffect⟩ := recv_effect env port msg size r link hport hlink
  have hsource : ntohs (msg.load16 4) ≠ r.routerId := (htables _).neighbor_ne_self (by rw [hlink]; rfl)
  have hroute (d : UInt16) := congrArg Prod.fst (heffect d)
  simp only [entryAt] at hroute
  refine ⟨r', calls, hrun, ?_⟩
  constructor
  · intro hcosts htakes
    have hself := hcosts (ntohs (msg.load16 4))
    rw [hroute] at hself
    exact htakes.received hself
  · intro hback d
    rw [hroute]
    by_cases hd : d = ntohs (msg.load16 4)
    · subst hd
      exact received_pathCost (hfits _) hsource (.inl hback)
    · exact received_pathCost (hfits d) hsource (.inr hd)

def thirtyPacket : Packet := samplePacket [(0, 3), (5, 10), (9, 30), (11, 4)] 12

theorem thirty_learned : ∃ r' calls, recv (sampleEnv 10) 0 thirtyPacket.block.memory 12
      (recvPong (sampleEnv 5) 0 firstPong.block.memory (Router.init 1 1 .dv)).1 = some (r', calls) ∧
    ∀ d, PathCost 10 5 ((readTable (sampleEnv 10) thirtyPacket.block.memory 12).get? d) d
      ((recvPong (sampleEnv 5) 0 firstPong.block.memory (Router.init 1 1 .dv)).1.routingTable.get? d)
      (r'.routingTable.get? d) := by
  have hinv := DvInv.run onePort_attached
    (.single ⟨sampleEnv 5, .packet 0 firstPong, _, firstPong_event, rfl⟩)
  have hlisted : (readTable (sampleEnv 10) thirtyPacket.block.memory 12).entries = [(30, 4)] := by decide
  obtain ⟨r', calls, hrun, hcosts⟩ := recv_pathCost_iff (sampleEnv 10) 0 thirtyPacket.block.memory 12
    hinv.tables (by decide) (show _ = some ⟨5, 0, 15005⟩ by decide) (by
      intro d a hd _
      have hmem := (Table.mem_entries_iff ..).mpr hd
      rw [hlisted, List.mem_singleton] at hmem
      obtain ⟨rfl, rfl⟩ := Prod.mk.inj hmem
      decide)
  refine ⟨r', calls, hrun, hcosts.mpr ?_⟩
  rintro ⟨route, hroute, hhop, -⟩
  obtain rfl := Option.some.inj (hroute.symm.trans (show _ = some ⟨5, 10⟩ by decide))
  exact hhop rfl

/-- Router 10 is 5 away and router 20 is 1 away; router 20 lists 10 at cost 2, and router 10 lists this
router at cost 2. -/
def wayBackEvents : List (Env × Event) :=
  [(sampleEnv 5, .packet 0 firstPong),
    (sampleEnv 10, .packet 1 (samplePacket [(0, 2), (5, 20), (7, 1), (11, 9)] 12)),
    (sampleEnv 20, .packet 1 (samplePacket [(0, 3), (5, 20), (9, 10), (11, 2)] 12))]

def wayBackPacket : Packet := samplePacket [(0, 3), (5, 10), (9, 1), (11, 2)] 12

theorem way_back_taken : ∃ r r' calls, DvReachable twoPorts 2 1 r ∧
    recv (sampleEnv 30) 0 wayBackPacket.block.memory 12 r = some (r', calls) ∧
    (r.neighborTable.get? 10).map Link.cost = some 5 ∧
    ¬ ∀ d, PathCost 10 5 ((readTable (sampleEnv 30) wayBackPacket.block.memory 12).get? d) d
      (r.routingTable.get? d) (r'.routingTable.get? d) := by
  have hevents : ∀ e ∈ wayBackEvents, DvEvent twoPorts 2 e.2 := by decide +kernel
  have hrun : ((handleAll (Router.init 2 1 .dv) wayBackEvents).bind fun r =>
      (recv (sampleEnv 30) 0 wayBackPacket.block.memory 12 r).map fun s =>
        ((r.neighborTable.get? 10).map Link.cost, r.routingTable.get? 10, s.1.routingTable.get? 10)) =
      some (some 5, some ⟨3, 20⟩, some ⟨2, 10⟩) := by decide +kernel
  obtain ⟨r, hr, hrest⟩ := Option.bind_eq_some_iff.mp hrun
  obtain ⟨⟨r', calls⟩, hrecv, hread⟩ := Option.map_eq_some_iff.mp hrest
  obtain ⟨hlink, hroutes⟩ := Prod.mk.inj hread
  obtain ⟨hbefore, hafter⟩ := Prod.mk.inj hroutes
  refine ⟨r, r', calls, handleAll_reaches hevents hr, hrecv, hlink, fun hcosts => ?_⟩
  have hself := hcosts 10
  rw [hbefore, hafter, show (readTable (sampleEnv 30) wayBackPacket.block.memory 12).get? 10 = none by decide]
    at hself
  simp [PathCost] at hself

end Comp556.Dv
