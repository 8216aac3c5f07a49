import Comp556.Routing.DvLearned
import Comp556.Routing.LsOverflow

/-!
# Costs that wrap

Times and sums are cut down to 16 bits in three places: where a pong is timed, where a DV packet is
added up, and in the forwarding table.
-/

namespace Comp556

namespace Router

def elapsed (env : Env) (msg : Memory) : UInt32 := env.time - ntohl (msg.load32 8)

private theorem roundTripTime_toNat (env : Env) (msg : Memory) :
    (roundTripTime env msg).toNat = (elapsed env msg).toNat % 65536 :=
  UInt32.toNat_toUInt16 _

private theorem le_roundTripTime_iff (env : Env) (msg : Memory) :
    (elapsed env msg).toNat ≤ (roundTripTime env msg).toNat ↔ (elapsed env msg).toNat < 65536 := by
  rw [roundTripTime_toNat]
  omega

private theorem notePong_link (env : Env) (port id rtt : UInt16) (r : Router) :
    (notePong env port id rtt r).1.neighborTable.get? id = some (freshLink env port rtt) := by
  unfold notePong
  cases r.portTable.get? port with
  | none => exact Table.get?_insert_self ..
  | some prevId => exact Table.get?_insert_self ..

private theorem recvPong_link (env : Env) (port : UInt16) (msg : Memory) {r : Router}
    (hdest : r.routerId = ntohs (msg.load16 6)) :
    (recvPong env port msg r).1.neighborTable.get? (ntohs (msg.load16 4)) =
      some (freshLink env port (roundTripTime env msg)) := by
  have hlink := notePong_link env port (ntohs (msg.load16 4)) (roundTripTime env msg) r
  generalize hnoted : notePong env port (ntohs (msg.load16 4)) (roundTripTime env msg) r = noted at hlink
  obtain ⟨r', oldRTT, update⟩ := noted
  simp only [recvPong, if_pos hdest, hnoted]
  cases update with
  | false => exact hlink
  | true =>
    cases hmode : r'.protocolType with
    | ls => exact hlink
    | dv =>
      simp only [if_true]
      rw [(Dv.update_keepsLinks ..).neighborTable]
      exact hlink

end Router

namespace Dv

/-- No route through the sender is cheaper than the link to it and what it lists together. -/
def NoCheaper (sourceId c a : UInt16) (after : Option Route) : Prop :=
  ∀ route, after = some route → route.nextHop = sourceId → c.toNat + a.toNat ≤ route.cost.toNat

private theorem received_noCheaper_iff {env : Env} {r : Router} {sourceId c back d a : UInt16}
    (hself : d ≠ r.routerId) (hfinite : a ≠ infinityCost) :
    NoCheaper sourceId c a (received env r.routerId sourceId c back (some a) d (entryAt r d)).1 ↔
      c.toNat + a.toNat < 65536 ∨ KeepsOld sourceId back (a + c) d (r.routingTable.get? d) := by
  obtain ⟨hkept, hnew⟩ := learned_preferred env sourceId back (a + c) d (entryAt r d)
  simp only [received, hself, hfinite, or_self, if_false]
  by_cases hold : KeepsOld sourceId back (a + c) d (r.routingTable.get? d)
  · rw [hkept hold]
    refine iff_of_true (fun route hroute hhop => ?_) (.inr hold)
    obtain ⟨route', hroute', hnot, -⟩ := hold
    obtain rfl := Option.some.inj (hroute'.symm.trans hroute)
    exact absurd (.inl hhop) hnot
  · rw [hnew hold]
    have hc := c.toNat_lt
    have ha := a.toNat_lt
    have hsum : (a + c).toNat = (a.toNat + c.toNat) % 65536 := UInt16.toNat_add a c
    have hcut : c.toNat + a.toNat ≤ (a + c).toNat ↔ c.toNat + a.toNat < 65536 := by omega
    rw [or_iff_left hold, ← hcut]
    constructor
    · exact fun h => h _ rfl rfl
    · intro hle route hroute _
      obtain rfl := Option.some.inj hroute
      exact hle

end Dv

open Router Dv Ls

/-- Where costs wrap: in the time of a pong, in the sums of a DV packet, and in the forwarding table. -/
theorem costs_never_wrap_iff (env : Env) (port : UInt16) (msg : Memory) (size : UInt16) (r : Router) :
    (r.routerId = ntohs (msg.load16 6) →
      ∃ link, (recvPong env port msg r).1.neighborTable.get? (ntohs (msg.load16 4)) = some link ∧
        ((elapsed env msg).toNat ≤ link.cost.toNat ↔ (elapsed env msg).toNat < 65536)) ∧
    (∀ link, r.portTable.get? port = some (ntohs (msg.load16 4)) →
      r.neighborTable.get? (ntohs (msg.load16 4)) = some link →
      ∃ r' calls, Dv.recv env port msg size r = some (r', calls) ∧
        ∀ d a, (readTable env msg size).get? d = some a → d ≠ r.routerId → a ≠ infinityCost →
          (NoCheaper (ntohs (msg.load16 4)) link.cost a (r'.routingTable.get? d) ↔
            link.cost.toNat + a.toNat < 65536 ∨ KeepsOld (ntohs (msg.load16 4))
              ((readTable env msg size).getD r.routerId 0) (a + link.cost) d (r.routingTable.get? d))) ∧
    ((∀ n link, r.neighborTable.get? n = some link → r.portTable.get? link.port = some n) →
      (NeverNearer r (updateForwardingTable env r).routingTable ↔ ExactFits r)) := by
  refine ⟨fun hdest => ?_, fun link hport hlink => ?_, fun hports => neverNearer_iff env hports⟩
  · exact ⟨_, recvPong_link env port msg hdest, le_roundTripTime_iff env msg⟩
  · obtain ⟨r', calls, hrun, -, heffect⟩ := recv_effect env port msg size r link hport hlink
    refine ⟨r', calls, hrun, fun d a hlisted hself hfinite => ?_⟩
    have hroute := congrArg Prod.fst (heffect d)
    rw [hlisted] at hroute
    rw [show r'.routingTable.get? d = _ from hroute]
    exact received_noCheaper_iff hself hfinite

def linkedAt (cost : UInt16) : Router :=
  { Router.init 1 1 .dv with
    neighborTable := Table.empty.insert (.front _) 10 ⟨cost, 0, 15000⟩
    portTable := Table.empty.insert (.front _) 0 10
    routingTable := Table.empty.insert (.front _) 10 ⟨cost, 10⟩ }

theorem small_costs_kept :
    (∃ link, (recvPong (sampleEnv 5) 0 firstPong.block.memory (Router.init 1 1 .dv)).1.neighborTable.get? 10 =
      some link ∧ 5 ≤ link.cost.toNat) ∧
    (∃ r' calls, Dv.recv (sampleEnv 10) 0 thirtyPacket.block.memory 12 (linkedAt 5) = some (r', calls) ∧
      NoCheaper 10 5 4 (r'.routingTable.get? 30)) ∧
    ExactFits triangleRouter := by
  refine ⟨?_, ?_, ?_⟩
  · have hpong := (costs_never_wrap_iff (sampleEnv 5) 0 firstPong.block.memory 12 (Router.init 1 1 .dv)).1
    obtain ⟨link, hlink, hcost⟩ := hpong (by decide)
    exact ⟨link, hlink, hcost.mpr (by decide)⟩
  · have hrecv := (costs_never_wrap_iff (sampleEnv 10) 0 thirtyPacket.block.memory 12 (linkedAt 5)).2.1
    obtain ⟨r', calls, hrun, hcosts⟩ := hrecv ⟨5, 0, 15000⟩ (by decide) (by decide)
    exact ⟨r', calls, hrun, (hcosts 30 4 (by decide) (by decide) (by decide)).mpr (.inl (by decide))⟩
  · have hlinked : ∀ e ∈ triangleRouter.neighborTable.entries,
        triangleRouter.portTable.get? e.2.port = some e.1 := by decide
    have hports (n : UInt16) (link : Link) (h : triangleRouter.neighborTable.get? n = some link) :=
      hlinked (n, link) ((Table.mem_entries_iff ..).mpr h)
    have hsearch := (costs_never_wrap_iff (sampleEnv 1) 0 firstPong.block.memory 12 triangleRouter).2.2
    refine (hsearch hports).mp fun d route hroute => ?_
    have hroutes := shortest_routes (sampleEnv 1) hports (fits_of_totalCost (by decide)) d
    exact .inr ⟨_, _, (hroutes.2 route hroute).1, Nat.le_refl _⟩

def farPacket : Packet := samplePacket [(0, 3), (5, 10), (9, 30), (10, 255), (11, 253)] 12

def farRouter : Router :=
  { neighborsRouter [(2, 65535)] with
    portTable := Table.empty.insert (.front _) 0 2
    graph := addEdge (sampleEnv 1) 2 3 5 .empty }

/-- A pong after 65541, a path of 5 and 65533, and one of 65535 and 5. -/
theorem large_costs_wrap :
    (recvPong (sampleEnv 65541) 0 firstPong.block.memory (Router.init 1 1 .dv)).1.neighborTable.get? 10 =
      some ⟨5, 0, 80541⟩ ∧
    (∃ r' calls, Dv.recv (sampleEnv 10) 0 farPacket.block.memory 12 (linkedAt 5) = some (r', calls) ∧
      ¬ NoCheaper 10 5 65533 (r'.routingTable.get? 30)) ∧
    ¬ NeverNearer farRouter (updateForwardingTable (sampleEnv 1) farRouter).routingTable := by
  refine ⟨by decide, ?_, ?_⟩
  · have hrun : (Dv.recv (sampleEnv 10) 0 farPacket.block.memory 12 (linkedAt 5)).map
        (fun s => s.1.routingTable.get? 30) = some (some ⟨2, 10⟩) := by decide +kernel
    obtain ⟨⟨r', calls⟩, hrecv, hroute⟩ := Option.map_eq_some_iff.mp hrun
    exact ⟨r', calls, hrecv, fun h => absurd (h _ hroute rfl) (by decide)⟩
  · intro hnever
    have hroute : (updateForwardingTable (sampleEnv 1) farRouter).routingTable.get? 3 = some ⟨4, 2⟩ := by
      decide +kernel
    have hfar (first : UInt16) (n : Nat) (hpath : PathOver farRouter 3 first n) : 65535 ≤ n := by
      refine hpath.rec_on (P := fun _ _ n => 65535 ≤ n) ?_ fun _ _ _ _ w _ hle _ =>
        hle.trans (Nat.le_add_right _ w)
      rintro v _ _ ⟨-, -, link, hlink, rfl⟩
      have hlinks : ∀ e ∈ farRouter.neighborTable.entries, 65535 ≤ e.2.cost.toNat := by decide
      exact hlinks (v, link) ((Table.mem_entries_iff ..).mpr hlink)
    rcases hnever 3 _ hroute with hinf | ⟨first, n, hpath, hn⟩
    · exact absurd hinf (by decide)
    · exact absurd ((hfar first n hpath).trans hn) (by decide)

end Comp556
