import Comp556.Routing.DvEffect
import Comp556.Routing.DvPacket
import Comp556.Routing.DvInvariant

/-!
# One router's table read by its neighbour

Poison reverse hides from a neighbour the routes that lead back through it. Hidden entries are
skipped by `recv`, so what the neighbour recorded for them before stays as it was.
-/

namespace Comp556.Dv

open Router

/-- The next hop of the route to `d` is `hop`. -/
def RoutesVia (r : Router) (d hop : UInt16) : Prop :=
  ∃ route, r.routingTable.get? d = some route ∧ route.nextHop = hop

theorem announcedCost_of_back {destId d : UInt16} {route : Route} (hhop : route.nextHop = destId)
    (hd : d ≠ destId) : announcedCost destId d route = infinityCost :=
  if_pos ⟨hhop.symm, hd⟩

theorem announcedCost_of_ne {destId d : UInt16} {route : Route} (hhop : route.nextHop ≠ destId) :
    announcedCost destId d route = route.cost :=
  if_neg fun h => hhop h.1.symm

private theorem received_of_hidden (env : Env) {routerId sourceId c back d : UInt16} {listed : Option UInt16}
    {entry : Option Route × Option UInt32} (hd : d ≠ sourceId)
    (hhidden : ∀ a, listed = some a → a = infinityCost) :
    received env routerId sourceId c back listed d entry = entry := by
  have hpreferred : preferred sourceId back d entry = entry := by
    obtain ⟨_ | route, time⟩ := entry <;> simp [preferred, hd]
  cases listed with
  | none => exact hpreferred
  | some a => simp [received, hhidden a rfl, hpreferred]

variable {s r : Router} {link : Link} {port : UInt16}

/-- `recv` at a neighbour of the packet that `send_DV` built for it. -/
theorem recv_dvPacket (envS env : Env) (hport : r.portTable.get? port = some s.routerId)
    (hlink : r.neighborTable.get? s.routerId = some link) :
    let packet := dvPacket envS s r.routerId
    let dvTable := readTable env packet.block.memory packet.size
    ∃ r' calls, recv env port packet.block.memory packet.size r = some (r', calls) ∧ KeepsLinks r r' ∧
      ∀ d, entryAt r' d = received env r.routerId s.routerId link.cost (dvTable.getD r.routerId 0)
        (dvTable.get? d) d (entryAt r d) := by
  have hsource := dvPacket_source envS s r.routerId
  obtain ⟨r', calls, hrun, hkeeps, heffect⟩ := recv_effect env port
    (dvPacket envS s r.routerId).block.memory (dvPacket envS s r.routerId).size r link
    (by rw [hsource]; exact hport) (by rw [hsource]; exact hlink)
  rw [hsource] at heffect
  exact ⟨r', calls, hrun, hkeeps, heffect⟩

private theorem recv_dvPacket_of_back (envS env : Env) (hport : r.portTable.get? port = some s.routerId)
    (hlink : r.neighborTable.get? s.routerId = some link) (hself : s.routingTable.get? s.routerId = none)
    {r' : Router} {calls : List SysCall}
    (hrun : recv env port (dvPacket envS s r.routerId).block.memory (dvPacket envS s r.routerId).size r =
      some (r', calls)) {d : UInt16} (hd : d ≠ r.routerId) (hback : RoutesVia s d r.routerId) :
    entryAt r' d = entryAt r d := by
  obtain ⟨route, hroute, hhop⟩ := hback
  obtain ⟨r'', _, hrun', _, heffect⟩ := recv_dvPacket envS env hport hlink
  obtain ⟨rfl, -⟩ := Prod.mk.inj (Option.some.inj (hrun.symm.trans hrun'))
  have hne : d ≠ s.routerId := by
    intro heq
    subst heq
    simp [hself] at hroute
  rw [heffect d]
  apply received_of_hidden env hne
  intro a ha
  obtain ⟨route', hroute', rfl⟩ := readTable_dvPacket envS s r.routerId ha
  obtain rfl := Option.some.inj (hroute.symm.trans hroute')
  exact announcedCost_of_back hhop hd

/-- After a neighbour has read the table of `s`, the two route no destination through each other exactly if
they did not do so before. -/
theorem no_mutual_route_iff (envS env : Env) (hport : r.portTable.get? port = some s.routerId)
    (hlink : r.neighborTable.get? s.routerId = some link)
    (hself : s.routingTable.get? s.routerId = none) :
    ∃ r' calls, recv env port (dvPacket envS s r.routerId).block.memory
        (dvPacket envS s r.routerId).size r = some (r', calls) ∧
      ((∀ d, d ≠ r.routerId → RoutesVia s d r.routerId → ¬ RoutesVia r' d s.routerId) ↔
        ∀ d, d ≠ r.routerId → RoutesVia s d r.routerId → ¬ RoutesVia r d s.routerId) := by
  obtain ⟨r', calls, hrun, _⟩ := recv_dvPacket envS env hport hlink
  refine ⟨r', calls, hrun, forall_congr' fun d => ?_⟩
  refine imp_congr_right fun hd => imp_congr_right fun hback => not_congr ?_
  have hsame := recv_dvPacket_of_back envS env hport hlink hself hrun hd hback
  have hroute : r'.routingTable.get? d = r.routingTable.get? d := congrArg Prod.fst hsame
  rw [RoutesVia, hroute, RoutesVia]

def pairRouter (routerId neighborId : UInt16) (link : Link) (routes : List (UInt16 × Route)) : Router :=
  { Router.init 1 routerId .dv with
    neighborTable := Table.empty.insert (.front _) neighborId link
    portTable := Table.empty.insert (.front _) link.port neighborId
    routingTable := routes.foldl (fun t e => t.insert (.front _) e.1 e.2) .empty
    dvTime := routes.foldl (fun t e => t.insert (.front _) e.1 45000) .empty }

def loopSender : Router := pairRouter 1 2 ⟨1, 0, 15000⟩ [(2, ⟨1, 2⟩), (3, ⟨5, 2⟩)]

def loopReader : Router := pairRouter 2 1 ⟨1, 0, 15000⟩ [(1, ⟨1, 1⟩), (3, ⟨4, 1⟩)]

/-- Every next hop is a neighbour, and the router has no route to itself. -/
def SoundRoutes (r : Router) : Prop :=
  (∀ e ∈ r.routingTable.entries, r.neighborTable.contains e.2.nextHop) ∧
    r.routingTable.get? r.routerId = none

instance (r : Router) : Decidable (SoundRoutes r) := inferInstanceAs (Decidable (_ ∧ _))

theorem no_mutual_route_pair :
    ∃ r' calls, recv (sampleEnv 9) 0 (dvPacket (sampleEnv 9) loopSender 2).block.memory
        (dvPacket (sampleEnv 9) loopSender 2).size loopReader = some (r', calls) ∧
      ((∀ d, d ≠ 2 → RoutesVia loopSender d 2 → ¬ RoutesVia r' d 1) ↔
        ∀ d, d ≠ 2 → RoutesVia loopSender d 2 → ¬ RoutesVia loopReader d 1) :=
  no_mutual_route_iff (s := loopSender) (r := loopReader) (sampleEnv 9) (sampleEnv 9) (by decide)
    (show loopReader.neighborTable.get? loopSender.routerId = some ⟨1, 0, 15000⟩ by decide) (by decide)

/-- Router 2 keeps its route to 3 through router 1, which has just told it that its own leads back. -/
theorem mutual_route_survives :
    SoundRoutes loopSender ∧ SoundRoutes loopReader ∧ loopSender.routingTable.get? 3 = some ⟨5, 2⟩ ∧
      (recv (sampleEnv 9) 0 (dvPacket (sampleEnv 9) loopSender 2).block.memory
        (dvPacket (sampleEnv 9) loopSender 2).size loopReader).map
          (fun out => out.1.routingTable.get? 3) = some (some ⟨4, 1⟩) := by
  decide +kernel

end Comp556.Dv
