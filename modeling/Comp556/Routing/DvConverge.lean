import Mathlib.Data.Prod.Lex
import Comp556.Routing.DvTurns

/-!
# Distance-vector routing settles on shortest paths

As long as links only come up and keep their costs, next hops never form a loop, deliveries of DV packets
come to an end, and what they end in are the distances between the routers.
-/

namespace Comp556.Dv

open Router

variable {topo : Topology} {net net' : DvNet} {members : Finset UInt16} {limit : Nat} {a u v t : UInt16}
variable {out : Router × List SysCall} {advertised : Finset UInt16}

/-- What an advertised router knows reaches its neighbours. -/
structure Settling (topo : Topology) (members : Finset UInt16) (limit : Nat) (net : DvNet) : Prop where
  sound : Sound topo members limit net
  linked : ∀ v u, net.channel v u ≠ [] → (topo.portTo v u).isSome
  fresh : ∀ v ∈ net.advertised, ∀ u, net.up v u → net.up u v → ∀ t,
    Vectors.Fresh topo.weight t (net.view t) v u

private theorem Sound.with_advertised (h : Sound topo members limit net) (advertised : Finset UInt16) :
    Sound topo members limit { net with advertised } :=
  ⟨h.router, h.flag, h.links, h.direct, h.written, h.vectors, h.bounded⟩

private theorem up_after (net : DvNet) (a : UInt16) (out : Router × List SysCall) (v u : UInt16) :
    (net.after topo a out).up v u = if v = a then out.1.neighborTable.contains u else net.up v u := by
  simp only [DvNet.up, DvNet.after, Function.update_apply]
  split <;> rfl

private theorem Sound.link_of_up (h : Sound topo members limit net) (hup : net.up v u) :
    (topo.portTo v u).isSome := by
  rw [DvNet.up, Table.contains_eq] at hup
  obtain ⟨link, hlink⟩ := Option.isSome_iff_exists.mp hup
  simp [(h.links v u link hlink).2]

private theorem link_of_posted {calls : List SysCall} (h : posted topo v u calls ≠ []) :
    (topo.portTo v u).isSome := by
  obtain ⟨packet, hpacket⟩ := List.exists_mem_of_ne_nil _ h
  obtain ⟨call, -, hcall⟩ := List.mem_filterMap.mp hpacket
  cases call with
  | send port packet' =>
    simp only at hcall
    split at hcall
    · rename_i hport
      simp [hport.1]
    · cases hcall
  | setAlarm duration alarm => cases hcall

private theorem link_of_after (net : DvNet) (hlinked : net.channel v u ≠ [] → (topo.portTo v u).isSome)
    (hne : (net.after topo a out).channel v u ≠ []) : (topo.portTo v u).isSome := by
  rcases not_and_or.mp (mt List.append_eq_nil_iff.mpr hne) with hold | hnew
  · exact hlinked hold
  · split at hnew
    · exact link_of_posted hnew
    · exact absurd rfl hnew

private theorem Turn.fresh_other (h : Turn topo members limit net a out) (hv : v ≠ a)
    (hfresh : Vectors.Fresh topo.weight t (net.view t) v u) :
    Vectors.Fresh topo.weight t ((net.after topo a out).view t) v u := by
  refine hfresh.congr ?_ ?_ ?_
  · simp [DvNet.after, hv]
  · simp [DvNet.after, hv]
  · by_cases hu : u = a
    · subst hu
      simpa [DvNet.after] using h.lowered t
    · simp only [view_record, DvNet.after, Function.update_of_ne hu]
      exact .refl _

private theorem Turn.fresh_self (hsmall : Small topo members limit) (h : Turn topo members limit net a out)
    (hu : u ≠ a) (hup : out.1.neighborTable.contains u)
    (hfresh : net.up a u → Vectors.Fresh topo.weight t (net.view t) a u) :
    Vectors.Fresh topo.weight t ((net.after topo a out).view t) a u := by
  rcases h.calls with ⟨hnone, hsame, hcontains⟩ | ⟨env, hsent⟩
  · refine (hfresh (hcontains u ▸ hup)).congr ?_ ?_ ?_
    · simp [DvNet.after, hsame]
    · simp [DvNet.after, hnone]
    · simp only [view_record, DvNet.after, Function.update_of_ne hu]
      exact .refl _
  · rw [h.view_after_send hsmall t hsent]
    exact .tell _ hup

theorem Settling.start (topo : Topology) (members : Finset UInt16) (limit : Nat) :
    Settling topo members limit (.start topo) where
  sound :=
    { router := fun _ => .init ..
      flag := fun _ => rfl
      links := nofun
      direct := nofun
      written := nofun
      vectors := fun _ => ⟨rfl, nofun, nofun, nofun, fun _ _ => .nil⟩
      bounded := fun _ => ⟨nofun, nofun⟩ }
  linked _ _ h := absurd rfl h
  fresh _ hv := absurd hv (Finset.notMem_empty _)

theorem Settling.deliver (hsmall : Small topo members limit) (h : Settling topo members limit net)
    (hdelivers : Delivers topo net net') : Settling topo members limit net' := by
  obtain ⟨env, v, u, port, packet, rest, out, hport, hhead, hrun, rfl⟩ := hdelivers
  have hvu : v ≠ u := (ne_of_link (Option.isSome_of_eq_some hport)).symm
  obtain ⟨hturn, hheard, hcontains⟩ := turn_deliver h.sound hsmall hport hhead hrun
  have hup (x y : UInt16) : ((net.take v u).after topo u out).up x y = net.up x y := by
    rw [up_after]
    split
    · rename_i hx
      rw [hx, hcontains]
    · rfl
  refine ⟨hturn.sound hsmall (h.sound.take v u), fun x y hne => ?_, fun x hx y hxy hyx t => ?_⟩
  · refine link_of_after (net.take v u) (fun htaken => h.linked x y fun hnil => htaken ?_) hne
    simp [DvNet.take, hnil]
  · rw [hup] at hxy hyx
    have hbefore := h.fresh x hx y hxy hyx t
    by_cases hpair : x = v ∧ y = u
    · obtain ⟨rfl, rfl⟩ := hpair
      have hmessage := hheard hyx t
      refine hbefore.take (h.sound.vectors t) (show (net.view t).channel x y = listed t packet ::
        rest.map (listed t) by rw [view_channel, hhead, List.map_cons]) ?_ ?_ ?_ fun hv hu n c hn hc => ?_
      · simp [DvNet.after, DvNet.take, hvu]
      · simp [DvNet.after, DvNet.take, hvu, hhead]
      · simpa [DvNet.after] using hmessage.lowered
      · obtain ⟨-, rfl⟩ := weight_eq_some.mp hc
        simpa [DvNet.after] using hmessage.offer hv hu n hn
    · have htaken : Vectors.Fresh topo.weight t ((net.take v u).view t) x y := by
        refine hbefore.congr rfl ?_ (.refl _)
        simp [DvNet.take, hpair]
      by_cases hxu : x = u
      · subst hxu
        have hne : y ≠ x := (ne_of_link (h.sound.link_of_up hxy)).symm
        exact hturn.fresh_self hsmall hne (by rw [hcontains]; exact hxy) fun _ => htaken
      · exact hturn.fresh_other hxu htaken

theorem Settling.pong (hsmall : Small topo members limit) (h : Settling topo members limit net) {env : Env}
    {port : UInt16} {packet : Packet} (hport : topo.portTo u v = some port)
    (hpong : PongOver topo env u v packet) (hrun : handle env (net.router u) (.packet port packet) = some out) :
    Settling topo members limit { net.after topo u out with
      advertised := if net.up u v then net.advertised else net.advertised.erase v } := by
  obtain ⟨hturn, hcontains⟩ := turn_pong h.sound hsmall hport hpong hrun
  refine ⟨(hturn.sound hsmall h.sound).with_advertised _, fun x y => link_of_after net (h.linked x y),
    fun x hx y hxy hyx t => ?_⟩
  have hx' : x ∈ net.advertised ∧ (x = v → net.up u v) := by
    dsimp only at hx
    split at hx
    · rename_i hup
      exact ⟨hx, fun _ => hup⟩
    · exact ⟨Finset.mem_of_mem_erase hx, fun hxv => absurd hxv (Finset.ne_of_mem_erase hx)⟩
  change (net.after topo u out).up x y at hxy
  change (net.after topo u out).up y x at hyx
  change Vectors.Fresh topo.weight t ((net.after topo u out).view t) x y
  have hne := ne_of_link ((hturn.sound hsmall h.sound).link_of_up hxy)
  rw [up_after] at hxy hyx
  by_cases hxu : x = u
  · subst hxu
    rw [if_pos rfl] at hxy
    rw [if_neg hne.symm] at hyx
    exact hturn.fresh_self hsmall hne.symm hxy fun hup => h.fresh x hx'.1 y hup hyx t
  · rw [if_neg hxu] at hxy
    refine hturn.fresh_other hxu (h.fresh x hx'.1 y hxy ?_ t)
    split at hyx
    · rename_i hyu
      rw [hcontains, Bool.or_eq_true, decide_eq_true_eq] at hyx
      rw [hyu]
      exact hyx.elim (fun hxv => hxv ▸ hx'.2 hxv) id
    · exact hyx

theorem Settling.routine (hsmall : Small topo members limit) (h : Settling topo members limit net) {env : Env}
    {event : Event} (hevent : Routine env (net.router u) event)
    (hrun : handle env (net.router u) event = some out) :
    Settling topo members limit { net.after topo u out with
      advertised := advertisedAfter u net.advertised event } := by
  obtain ⟨hturn, hcontains, halarm⟩ := turn_routine h.sound hevent hrun
  refine ⟨(hturn.sound hsmall h.sound).with_advertised _, fun x y => link_of_after net (h.linked x y),
    fun x hx y hxy hyx t => ?_⟩
  change (net.after topo u out).up x y at hxy
  change (net.after topo u out).up y x at hyx
  change Vectors.Fresh topo.weight t ((net.after topo u out).view t) x y
  have hne := ne_of_link ((hturn.sound hsmall h.sound).link_of_up hxy)
  have hup (x y : UInt16) : (net.after topo u out).up x y = net.up x y := by
    rw [up_after]
    split
    · rename_i hx
      rw [hx, hcontains]
    · rfl
  rw [hup] at hxy hyx
  have hx' : x ∈ net.advertised ∨ x = u ∧ event = .alarm .dv := by
    cases event with
    | packet port packet => exact .inl hx
    | alarm alarm =>
      cases alarm with
      | dv => exact (Finset.mem_insert.mp hx).symm.imp id fun h => ⟨h, rfl⟩
      | ping | ls | port => exact .inl hx
  rcases hx' with hx' | ⟨rfl, hdv⟩
  · have hbefore := h.fresh x hx' y hxy hyx t
    by_cases hxu : x = u
    · subst hxu
      exact hturn.fresh_self hsmall hne.symm (by rw [hcontains]; exact hxy) fun _ => hbefore
    · exact hturn.fresh_other hxu hbefore
  · rw [hturn.view_after_send hsmall t (halarm hdv)]
    exact .tell _ (by rw [hcontains]; exact hxy)

theorem Settling.lose (h : Settling topo members limit net) {left : List Packet}
    (hleft : left.Sublist (net.channel v u)) : Settling topo members limit (net.lose v u left) := by
  refine ⟨h.sound.lose hleft, fun x y hne => ?_, fun x hx y hxy hyx t => ?_⟩
  · refine h.linked x y fun hnil => hne ?_
    simp only [DvNet.lose]
    split
    · rename_i hxy
      rw [← hxy.1, ← hxy.2, hnil] at hleft
      exact List.sublist_nil.mp hleft
    · exact hnil
  · obtain ⟨hxv, hx⟩ := Finset.mem_erase.mp hx
    refine (h.fresh x hx y hxy hyx t).congr rfl ?_ (.refl _)
    simp [DvNet.lose, hxv]

theorem Settling.step (hsmall : Small topo members limit) (h : Settling topo members limit net)
    (hstep : DvStep topo net net') : Settling topo members limit net' := by
  cases hstep with
  | deliver hdelivers => exact h.deliver hsmall hdelivers
  | pong env hport hpong hrun => exact h.pong hsmall hport hpong hrun
  | routine env hevent hrun => exact h.routine hsmall hevent hrun
  | lose hleft => exact h.lose hleft

theorem settling_of_reachable (hsmall : Small topo members limit) (hrun : net.Reachable topo) :
    Settling topo members limit net :=
  run_invariant (Settling topo members limit) hrun (.start topo members limit) fun _ _ h hstep =>
    h.step hsmall hstep

def pair : Topology where
  toTopology := Ls.pairTopology
  cost _ _ := 5
  symmetric _ _ := rfl
  positive _ _ := by decide
  wired a := by
    have hzero (p : UInt16) (hp : p < 1) : p = 0 := UInt16.lt_one_iff.mp hp
    refine ⟨fun p hp heq => ?_, fun p q hp hq _ => (hzero p hp).trans (hzero q hq).symm⟩
    by_cases ha : a = 1
    · simp [Ls.pairTopology, ha] at heq
    · simp only [Ls.pairTopology, ha, if_false] at heq
      exact ha heq.symm

/-- Router `u` handles an event. -/
def DvNet.turn (topo : Topology) (net : DvNet) (env : Env) (u : UInt16) (event : Event) : DvNet :=
  net.after topo u ((handle env (net.router u) event).getD (net.router u, []))

/-- `recv_data` of router `a` sends the packet over its link to `b`. -/
def DvNet.Forwards (topo : Topology) (net : DvNet) (packet : Packet) (a b : UInt16) : Prop :=
  ∃ port, recvData packet (net.router a) = [.send port packet] ∧ topo.portTo a b = some port

theorem Sound.forwards (h : Sound topo members limit net) {packet : Packet} {d : UInt16}
    (hdest : ntohs (packet.block.memory.load16 6) = d) {a b : UInt16}
    (hrecord : ∃ r, (net.view d).record a = some r ∧ r.nextHop = b) : net.Forwards topo packet a b := by
  obtain ⟨r, hr, rfl⟩ := hrecord
  obtain ⟨route, hroute, rfl⟩ := Option.map_eq_some_iff.mp hr
  have hne : d ≠ a := by
    rintro rfl
    rw [(h.vectors d).self] at hr
    cases hr
  obtain ⟨link, hlink⟩ := Option.isSome_iff_exists.mp (((h.router a).tables d).hop route hroute)
  refine ⟨link.port, ?_, (h.links a route.nextHop link hlink).2⟩
  simp [recvData, hdest, (h.router a).routerId, hne, hroute, hlink]

private theorem topology_positive {a b : UInt16} {c : Nat} (h : topo.weight a b = some c) : 0 < c :=
  (weight_eq_some.mp h).2 ▸ topo.positive a b

theorem Sound.trail (hsound : Sound topo members limit net) {d : UInt16} {route : Route}
    (hroute : (net.router u).routingTable.get? d = some route) {packet : Packet}
    (hdest : ntohs (packet.block.memory.load16 6) = d) :
    ∃ path n, Trail (net.Forwards topo packet) (Weighted topo.weight) u d path n ∧ path.Nodup := by
  obtain ⟨path, n, htrail, hnodup, -⟩ := (hsound.vectors d).trail (fun a b c => topology_positive)
    (show (net.view d).record u = some (recordOf route) by simp [hroute])
  exact ⟨path, n, htrail.mono fun a b => hsound.forwards hdest, hnodup⟩

theorem Sound.arrived (hsound : Sound topo members limit net) {d : UInt16} {packet : Packet}
    (hdest : ntohs (packet.block.memory.load16 6) = d) : recvData packet (net.router d) = [] := by
  simp [recvData, hdest, (hsound.router d).routerId]

def DvNet.pending (members : Finset UInt16) (net : DvNet) : Nat ×ₗ Nat :=
  toLex (∑ t ∈ members, (net.view t).worth members 65535,
    ∑ v ∈ members, ∑ u ∈ members, (net.channel v u).length)

theorem Settling.delivers (h : Settling topo members limit net) (hne : net.channel v u ≠ []) :
    ∃ net', Delivers topo net net' := by
  obtain ⟨packet, rest, hhead⟩ := List.exists_cons_of_ne_nil hne
  have hwritten := h.sound.written v u packet (by simp [hhead])
  obtain ⟨port, hport⟩ := Option.isSome_iff_exists.mp (portTo_symm (h.linked v u hne))
  obtain ⟨r', calls, hrun, -⟩ := (h.sound.router u).handle (topo.wired u) anyEnv
    (show DvEvent (topo.attached u) (topo.numPorts u) (.packet port packet) by
      simp only [DvEvent, hwritten.type]
      exact fromAttached_of_link hport hwritten.source)
  exact ⟨_, anyEnv, v, u, port, packet, rest, (r', calls), hport, hhead, hrun, rfl⟩

end Comp556.Dv
