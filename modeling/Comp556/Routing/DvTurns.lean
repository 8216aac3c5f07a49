import Comp556.Routing.DvFixpoint
import Comp556.Routing.DvNetwork
import Comp556.Routing.PingPong

/-!
# What an event does to a distance-vector network

Whatever a router handles while its links keep their costs, it replaces its routes by cheaper ones that
stand for a path, and tells all its neighbours when it has replaced any.
-/

namespace Comp556.Dv

open Router

variable {topo : Topology} {net net' : DvNet} {members : Finset UInt16} {limit : Nat} {u v t : UInt16}

section Packets

variable {packet : Packet}

theorem Written.type (h : Written v u packet) : PacketType.ofCode (packet.block.memory 0) = some .dv := by
  obtain ⟨envS, s, _, rfl, -⟩ := h
  exact dvPacket_type envS s u

theorem Written.source (h : Written v u packet) : ntohs (packet.block.memory.load16 4) = v := by
  obtain ⟨envS, s, _, rfl, hv, -⟩ := h
  exact (dvPacket_source envS s u).trans hv

theorem Written.handle_eq (h : Written v u packet) (env : Env) (r : Router) (port : UInt16) :
    handle env r (.packet port packet) = recv env port packet.block.memory packet.size r := by
  simp only [handle, Router.recv, h.type]

private theorem Written.readTable_eq (h : Written v u packet) (env env' : Env) (t : UInt16) :
    (readTable env packet.block.memory packet.size).get? t =
      (readTable env' packet.block.memory packet.size).get? t := by
  obtain ⟨envS, s, back, rfl, -, hfew, -⟩ := h
  have hfits := (dvPacket_inBounds envS s u).mpr (by omega)
  rw [readTable_of_inBounds envS s u env hfits, readTable_of_inBounds envS s u env' hfits]

private theorem Written.listed_iff (h : Written v u packet) (env : Env) (t : UInt16) (x : Nat) :
    listed t packet = some x ↔ ∃ a, (readTable env packet.block.memory packet.size).get? t = some a ∧
      a ≠ infinityCost ∧ a.toNat = x := by
  rw [listed, h.readTable_eq anyEnv env, Option.bind_eq_some_iff]
  refine exists_congr fun a => and_congr_right fun _ => ?_
  by_cases ha : a = infinityCost <;> simp [ha]

private theorem listed_dvPacket (env : Env) (s : Router) (u : UInt16) (hfew : s.routingTable.size ≤ 16381)
    (hfinite : ∀ route, s.routingTable.get? t = some route → route.cost ≠ infinityCost) :
    listed t (dvPacket env s u) = (s.routingTable.get? t).bind fun route =>
      if route.nextHop = u ∧ t ≠ u then none else some route.cost.toNat := by
  have hfits := (dvPacket_inBounds env s u).mpr (by omega)
  rw [listed, readTable_of_inBounds env s u anyEnv hfits]
  cases hroute : s.routingTable.get? t with
  | none => rfl
  | some route =>
    simp only [Option.map_some, Option.bind_some]
    by_cases hback : route.nextHop = u ∧ t ≠ u
    · rw [announcedCost_of_back hback.1 hback.2, if_pos rfl, if_pos hback]
    · have hopen : announcedCost u t route = route.cost := if_neg fun h => hback ⟨h.1.symm, h.2⟩
      rw [hopen, if_neg (hfinite route hroute), if_neg hback]

/-- `send` puts one packet on every link that is up. -/
private theorem posted_send {a : UInt16} {r : Router}
    (hlinks : ∀ n link, r.neighborTable.get? n = some link → topo.portTo a n = some link.port)
    (env : Env) (b : UInt16) :
    posted topo a b (send env r) = if r.neighborTable.contains b then [dvPacket env r b] else [] := by
  have hsame : posted topo a b (send env r) =
      r.neighborTable.entries.filterMap fun e => if e.1 = b then some (dvPacket env r b) else none := by
    rw [posted, send, List.filterMap_map]
    refine List.filterMap_congr fun e he => ?_
    have hport := hlinks e.1 e.2 ((Table.mem_entries_iff ..).mp he)
    simp only [Function.comp_apply, sendDV, dvPacket_type, and_true]
    by_cases heb : e.1 = b
    · rw [if_pos heb, if_pos (heb ▸ hport), heb]
    · rw [if_neg heb, if_neg]
      intro hb
      obtain ⟨-, q, -, hfar⟩ := topo.links a e.1 e.2.port hport
      obtain ⟨-, q', -, hfar'⟩ := topo.links a b e.2.port hb
      exact heb (congrArg Prod.fst (hfar.symm.trans hfar'))
  rw [hsame, Table.filterMap_key r.neighborTable b fun _ => dvPacket env r b, Table.contains_eq]
  cases r.neighborTable.get? b <;> rfl

end Packets

private theorem announce_calls {env : Env} {r s r' : Router} {calls : List SysCall} (h : Flagged r s)
    (hannounce : announce env s = (r', calls)) :
    r'.isUpdated = true ∧ (calls = [] ∧ r'.routingTable = r.routingTable ∨ calls = send env r') := by
  unfold announce at hannounce
  split at hannounce
  · rename_i hflag
    obtain ⟨rfl, rfl⟩ := Prod.mk.inj hannounce
    exact ⟨hflag, .inl ⟨rfl, h hflag⟩⟩
  · obtain ⟨rfl, rfl⟩ := Prod.mk.inj hannounce
    exact ⟨rfl, .inr rfl⟩

private theorem recv_calls {env : Env} {r r' : Router} {port : UInt16} {msg : Memory} {size : UInt16}
    {calls : List SysCall} (hflag : r.isUpdated = true) (hrun : recv env port msg size r = some (r', calls)) :
    r'.isUpdated = true ∧ (calls = [] ∧ r'.routingTable = r.routingTable ∨ calls = send env r') := by
  unfold Dv.recv at hrun
  dsimp only at hrun
  split at hrun
  · obtain ⟨s, hloop, hannounce⟩ := Option.map_eq_some_iff.mp hrun
    exact announce_calls (foldlM_invariant (Flagged r) hloop ((Flagged.refl r).preferSource env _ _)
      fun _ _ _ h hbody => h.recvEntry hbody) hannounce
  · obtain ⟨rfl, rfl⟩ := Prod.mk.inj (Option.some.inj hrun)
    exact ⟨hflag, .inl ⟨rfl, rfl⟩⟩

private theorem refresh_calls {env : Env} {r r' : Router} {calls : List SysCall}
    (hrun : refresh env r = some (r', calls)) :
    r'.isUpdated = true ∧ (calls = [] ∧ r'.routingTable = r.routingTable ∨ calls = send env r') := by
  obtain ⟨s, hloop, hannounce⟩ := Option.map_eq_some_iff.mp hrun
  exact announce_calls (foldlM_invariant (Flagged r) hloop (Flagged.refl r)
    fun _ _ _ h hbody => h.refreshEntry hbody) hannounce

/-- What holds in every state of the network, whatever has been lost. -/
structure Sound (topo : Topology) (members : Finset UInt16) (limit : Nat) (net : DvNet) : Prop where
  router : ∀ u, DvInv (topo.attached u) (topo.numPorts u) u (net.router u)
  flag : ∀ u, (net.router u).isUpdated = true
  links : ∀ u v link, (net.router u).neighborTable.get? v = some link →
    link.cost = topo.cost u v ∧ topo.portTo u v = some link.port
  direct : ∀ u v, net.up u v →
    ∃ route, (net.router u).routingTable.get? v = some route ∧ route.cost ≤ topo.cost u v
  written : ∀ v u, ∀ packet ∈ net.channel v u, Written v u packet
  vectors : ∀ t, (net.view t).Inv topo.weight t
  bounded : ∀ t, (net.view t).Bounded members limit

/-- What router `a` leaves behind when it has handled an event: its routes are cheaper if they have
changed, and then it has told all its neighbours. -/
structure Turn (topo : Topology) (members : Finset UInt16) (limit : Nat) (net : DvNet) (a : UInt16)
    (out : Router × List SysCall) : Prop where
  router : DvInv (topo.attached a) (topo.numPorts a) a out.1
  flag : out.1.isUpdated = true
  links : ∀ v link, out.1.neighborTable.get? v = some link →
    link.cost = topo.cost a v ∧ topo.portTo a v = some link.port
  direct : ∀ v, out.1.neighborTable.contains v →
    ∃ route, out.1.routingTable.get? v = some route ∧ route.cost ≤ topo.cost a v
  vectors : ∀ t, ((net.view t).put a ((out.1.routingTable.get? t).map recordOf)).Inv topo.weight t
  bounded : ∀ t, ((net.view t).put a ((out.1.routingTable.get? t).map recordOf)).Bounded members limit
  lowered : ∀ t, Vectors.Lowered ((net.view t).record a) ((out.1.routingTable.get? t).map recordOf)
  calls : ((∀ w, posted topo a w out.2 = []) ∧
    (∀ t, out.1.routingTable.get? t = (net.router a).routingTable.get? t) ∧
      ∀ w, out.1.neighborTable.contains w = net.up a w) ∨
    ∃ env, ∀ w, posted topo a w out.2 = posted topo a w (send env out.1)

theorem weight_eq_some {a b : UInt16} {c : Nat} :
    topo.weight a b = some c ↔ (topo.portTo a b).isSome ∧ c = (topo.cost a b).toNat := by
  rw [Topology.weight, Option.map_eq_some_iff, Option.isSome_iff_exists]
  constructor
  · rintro ⟨p, hp, rfl⟩
    exact ⟨⟨p, hp⟩, rfl⟩
  · rintro ⟨⟨p, hp⟩, rfl⟩
    exact ⟨p, hp, rfl⟩

theorem portTo_symm {a b : UInt16} (h : (topo.portTo a b).isSome) : (topo.portTo b a).isSome := by
  obtain ⟨p, hp⟩ := Option.isSome_iff_exists.mp h
  obtain ⟨-, q, hq, -⟩ := topo.links a b p hp
  simp [hq]

private theorem weight_self (a : UInt16) : topo.weight a a = none := by
  by_contra h
  obtain ⟨c, hc⟩ := Option.ne_none_iff_exists'.mp h
  obtain ⟨p, hp⟩ := Option.isSome_iff_exists.mp (weight_eq_some.mp hc).1
  obtain ⟨hlt, q, -, hfar⟩ := topo.links a a p hp
  exact (topo.wired a).ne_self p hlt (congrArg Prod.fst hfar)

theorem ne_of_link {a b : UInt16} (h : (topo.portTo a b).isSome) : a ≠ b := by
  rintro rfl
  have hweight := weight_eq_some.mpr ⟨h, rfl⟩
  rw [weight_self] at hweight
  cases hweight

theorem Small.walk (hsmall : Small topo members limit) {a d : UInt16} {n : Nat}
    (hwalk : Walk (Weighted topo.weight) a d n) (hne : a ≠ d) : a ∈ members ∧ d ∈ members := by
  induction hwalk with
  | nil => exact absurd rfl hne
  | @cons a b d c n hedge hrest ih =>
    have hlink := (weight_eq_some.mp hedge).1
    refine ⟨hsmall.linked a b hlink, ?_⟩
    by_cases hbd : b = d
    · exact hbd ▸ hsmall.linked b a (portTo_symm hlink)
    · exact (ih hbd).2

@[simp] theorem view_record (net : DvNet) (t u : UInt16) :
    (net.view t).record u = ((net.router u).routingTable.get? t).map recordOf := rfl

@[simp] theorem view_channel (net : DvNet) (t v u : UInt16) :
    (net.view t).channel v u = (net.channel v u).map (listed t) := rfl

private theorem view_take (net : DvNet) (t v u : UInt16) : (net.take v u).view t = (net.view t).take v u := by
  simp only [DvNet.view, DvNet.take, Vectors.take, Vectors.mk.injEq, true_and]
  funext a b
  split <;> simp

section After

variable {a : UInt16} {out : Router × List SysCall}

theorem view_after_record (net : DvNet) (a : UInt16) (out : Router × List SysCall) (t : UInt16) :
    ((net.after topo a out).view t).record =
      ((net.view t).put a ((out.1.routingTable.get? t).map recordOf)).record := by
  funext w
  by_cases hw : w = a
  · subst hw
    simp [DvNet.after]
  · rw [Vectors.put_of_ne _ _ hw]
    simp [DvNet.after, hw]

private theorem view_after_silent (net : DvNet) (t : UInt16) (h : ∀ w, posted topo a w out.2 = []) :
    (net.after topo a out).view t = (net.view t).put a ((out.1.routingTable.get? t).map recordOf) := by
  have hchannel : ((net.after topo a out).view t).channel = (net.view t).channel := by
    funext v w
    by_cases hv : v = a
    · simp [DvNet.after, hv, h]
    · simp [DvNet.after, hv]
  exact congrArg₂ Vectors.mk (view_after_record net a out t) hchannel

namespace Turn

variable (hsmall : Small topo members limit) (h : Turn topo members limit net a out)
include hsmall h

theorem cost_lt {d : UInt16} {route : Route} (hroute : out.1.routingTable.get? d = some route) :
    route.cost.toNat < 65535 := by
  have hle := (h.bounded d).record a (recordOf route) (by simp [hroute])
  have hcard : (((net.view d).put a ((out.1.routingTable.get? d).map recordOf)).known members).card ≤
      members.card := Finset.card_le_card (Finset.filter_subset _ _)
  have hroom := hsmall.room
  have hmul := Nat.mul_le_mul_left limit hcard
  simp only [recordOf] at hle
  omega

theorem member {d : UInt16} (hd : (out.1.routingTable.get? d).isSome) :
    a ≠ d ∧ a ∈ members ∧ d ∈ members := by
  obtain ⟨route, hroute⟩ := Option.isSome_iff_exists.mp hd
  have hrecord : ((net.view d).put a ((out.1.routingTable.get? d).map recordOf)).record a =
      some (recordOf route) := by simp [hroute]
  have hne : a ≠ d := by
    rintro rfl
    rw [(h.vectors a).self] at hrecord
    cases hrecord
  exact ⟨hne, hsmall.walk ((h.vectors d).walk a _ hrecord) hne⟩

theorem size_le : out.1.routingTable.size ≤ 16381 := by
  rw [size_eq_card]
  by_cases hempty : out.1.routingTable.keys = []
  · simp [hempty]
  obtain ⟨d, hd⟩ := List.exists_mem_of_ne_nil _ hempty
  have ha := (h.member hsmall ((Table.mem_keys_iff ..).mp hd)).2.1
  have hsub : out.1.routingTable.keys.toFinset ⊆ members.erase a := by
    intro d hd
    obtain ⟨hne, -, hd⟩ := h.member hsmall ((Table.mem_keys_iff ..).mp (List.mem_toFinset.mp hd))
    exact Finset.mem_erase.mpr ⟨hne.symm, hd⟩
  have hle := Finset.card_le_card hsub
  rw [Finset.card_erase_of_mem ha] at hle
  have hfew := hsmall.few
  omega

theorem view_after_send (t : UInt16) {env : Env}
    (hposted : ∀ w, posted topo a w out.2 = posted topo a w (send env out.1)) :
    (net.after topo a out).view t =
      ((net.view t).put a ((out.1.routingTable.get? t).map recordOf)).tell t a
        out.1.neighborTable.contains := by
  have hchannel : ((net.after topo a out).view t).channel =
      (((net.view t).put a ((out.1.routingTable.get? t).map recordOf)).tell t a
        out.1.neighborTable.contains).channel := by
    funext v w
    by_cases hv : v = a
    · subst hv
      have htold : listed t (dvPacket env out.1 w) =
          ((net.view t).put v ((out.1.routingTable.get? t).map recordOf)).told t v w := by
        rw [listed_dvPacket env out.1 w (h.size_le hsmall) fun route hroute heq => ?_]
        · rw [Vectors.told, Vectors.put_self, Option.bind_map]
          rfl
        · have hlt := h.cost_lt hsmall hroute
          rw [heq] at hlt
          exact absurd hlt (by decide)
      simp only [DvNet.after, view_channel, hposted w,
        posted_send (fun n link hlink => (h.links n link hlink).2) env w, if_true, Vectors.tell, true_and,
        Vectors.put_channel, List.map_append]
      congr 1
      split
      · rw [List.map_singleton, htold]
      · rfl
    · simp [DvNet.after, Vectors.tell, hv]
  exact congrArg₂ Vectors.mk (view_after_record net a out t) hchannel

theorem written {w : UInt16} (hup : out.1.neighborTable.contains w) (env : Env) :
    Written a w (dvPacket env out.1 w) := by
  obtain ⟨back, hback, -⟩ := h.direct w hup
  refine ⟨env, out.1, back, rfl, h.router.routerId, h.size_le hsmall, ?_, hback, fun heq => ?_⟩
  · cases hself : out.1.routingTable.get? a with
    | none => rfl
    | some route => exact absurd rfl (h.member hsmall (by simp [hself])).1
  · have hlt := h.cost_lt hsmall hback
    rw [heq] at hlt
    exact absurd hlt (by decide)

theorem sound (hnet : Sound topo members limit net) : Sound topo members limit (net.after topo a out) := by
  have hrouter (w : UInt16) : (net.after topo a out).router w = if w = a then out.1 else net.router w :=
    Function.update_apply ..
  constructor
  case router =>
    intro w
    rw [hrouter]
    split
    · rename_i hw
      exact hw ▸ h.router
    · exact hnet.router w
  case flag =>
    intro w
    rw [hrouter]
    split
    · exact h.flag
    · exact hnet.flag w
  case links =>
    intro w v link hlink
    rw [hrouter] at hlink
    split at hlink
    · rename_i hw
      exact hw ▸ h.links v link hlink
    · exact hnet.links w v link hlink
  case direct =>
    intro w v hup
    rw [DvNet.up, hrouter] at hup
    rw [hrouter]
    split at hup
    · rename_i hw
      rw [if_pos hw]
      exact hw ▸ h.direct v hup
    · rename_i hw
      rw [if_neg hw]
      exact hnet.direct w v hup
  case written =>
    intro v w packet hpacket
    rcases List.mem_append.mp hpacket with hold | hnew
    · exact hnet.written v w packet hold
    · split at hnew
      · rename_i hv
        subst hv
        rcases h.calls with ⟨hnone, -⟩ | ⟨env, hsent⟩
        · rw [hnone] at hnew
          cases hnew
        · rw [hsent, posted_send (fun n link hlink => (h.links n link hlink).2) env w] at hnew
          split at hnew
          · rename_i hup
            rw [List.mem_singleton.mp hnew]
            exact h.written hsmall hup env
          · cases hnew
      · cases hnew
  case vectors =>
    intro t
    rcases h.calls with ⟨hnone, -⟩ | ⟨env, hsent⟩
    · rw [view_after_silent net t hnone]
      exact h.vectors t
    · rw [h.view_after_send hsmall t hsent]
      exact (h.vectors t).tell a _
  case bounded =>
    intro t
    rcases h.calls with ⟨hnone, -⟩ | ⟨env, hsent⟩
    · rw [view_after_silent net t hnone]
      exact h.bounded t
    · rw [h.view_after_send hsmall t hsent]
      exact (h.bounded t).tell a _

end Turn

end After

theorem Sound.take (hnet : Sound topo members limit net) (v u : UInt16) :
    Sound topo members limit (net.take v u) where
  router := hnet.router
  flag := hnet.flag
  links := hnet.links
  direct := hnet.direct
  written a b packet hpacket := by
    simp only [DvNet.take] at hpacket
    split at hpacket
    · exact hnet.written a b packet (List.mem_of_mem_tail hpacket)
    · exact hnet.written a b packet hpacket
  vectors t := view_take net t v u ▸ (hnet.vectors t).take v u
  bounded t := view_take net t v u ▸ (hnet.bounded t).take v u

theorem Sound.lose (hnet : Sound topo members limit net) {v u : UInt16} {left : List Packet}
    (hleft : left.Sublist (net.channel v u)) : Sound topo members limit (net.lose v u left) := by
  have hsub (a b : UInt16) : ((net.lose v u left).channel a b).Sublist (net.channel a b) := by
    simp only [DvNet.lose]
    split
    · rename_i h
      rw [h.1, h.2]
      exact hleft
    · exact List.Sublist.refl _
  have hmap (t a b : UInt16) :
      (((net.lose v u left).view t).channel a b).Sublist ((net.view t).channel a b) := (hsub a b).map _
  exact ⟨hnet.router, hnet.flag, hnet.links, hnet.direct,
    fun a b packet hpacket => hnet.written a b packet ((hsub a b).subset hpacket),
    fun t => (hnet.vectors t).sublist rfl (hmap t), fun t => (hnet.bounded t).sublist rfl (hmap t)⟩

theorem fromAttached_of_link {u v port : UInt16} {packet : Packet}
    (hport : topo.portTo u v = some port) (hsource : ntohs (packet.block.memory.load16 4) = v) :
    FromAttached (topo.attached u) (topo.numPorts u) port packet := by
  obtain ⟨hlt, q, -, hfar⟩ := topo.links u v port hport
  exact ⟨hlt, hsource.trans (congrArg Prod.fst hfar).symm⟩

theorem Turn.of_same {a : UInt16} {out : Router × List SysCall} (hnet : Sound topo members limit net)
    (hrouter : DvInv (topo.attached a) (topo.numPorts a) a out.1) (hflag : out.1.isUpdated = true)
    (hlinks : ∀ v link, out.1.neighborTable.get? v = some link →
      link.cost = topo.cost a v ∧ topo.portTo a v = some link.port)
    (hup : ∀ w, out.1.neighborTable.contains w = net.up a w)
    (hroutes : ∀ t, out.1.routingTable.get? t = (net.router a).routingTable.get? t)
    (hcalls : (∀ w, posted topo a w out.2 = []) ∨ ∃ env, ∀ w,
      posted topo a w out.2 = posted topo a w (send env out.1)) :
    Turn topo members limit net a out := by
  have hsame (t : UInt16) :
      (net.view t).put a ((out.1.routingTable.get? t).map recordOf) = net.view t := by
    rw [hroutes]
    exact (net.view t).put_same a
  constructor
  case router => exact hrouter
  case flag => exact hflag
  case links => exact hlinks
  case direct =>
    intro v hv
    rw [hroutes]
    exact hnet.direct a v (hup v ▸ hv)
  case vectors =>
    intro t
    rw [hsame]
    exact hnet.vectors t
  case bounded =>
    intro t
    rw [hsame]
    exact hnet.bounded t
  case lowered =>
    intro t
    rw [hroutes]
    exact .refl _
  case calls => exact hcalls.imp (fun hnone => ⟨hnone, hroutes, hup⟩) id

private theorem learned_record (env : Env) (sourceId totalCost : UInt16)
    (entry : Option Route × Option UInt32) :
    ((learned env sourceId totalCost entry).1).map recordOf =
      Vectors.offered sourceId totalCost.toNat (entry.1.map recordOf) := by
  obtain ⟨_ | route, time⟩ := entry
  · rfl
  · have hcond : ((route.nextHop = sourceId ∧ route.cost ≠ totalCost) ∨ route.cost > totalCost) ↔
        (route.nextHop = sourceId ∧ route.cost.toNat ≠ totalCost.toNat) ∨
          totalCost.toNat < route.cost.toNat := by
      rw [gt_iff_lt, UInt16.lt_iff_toNat_lt, ne_eq, ne_eq, UInt16.toNat_inj]
    simp only [learned, Option.map_some, Vectors.offered, recordOf]
    by_cases h : (route.nextHop = sourceId ∧ route.cost ≠ totalCost) ∨ route.cost > totalCost
    · rw [if_pos h, if_pos (hcond.mp h)]
      rfl
    · rw [if_neg h, if_neg (mt hcond.mpr h)]
      split <;> rfl

section Deliver

variable {packet : Packet} {env : Env} {rest : List Packet} {out : Router × List SysCall} {port : UInt16}

private theorem mem_message (hpacket : packet ∈ net.channel v u) {x : Nat} (hx : listed t packet = some x) :
    some x ∈ (net.view t).channel v u := List.mem_map.mpr ⟨packet, hpacket, hx⟩

private theorem Sound.sum_lt (hnet : Sound topo members limit net) (hsmall : Small topo members limit) {x : Nat}
    (hpacket : packet ∈ net.channel v u) (hx : listed t packet = some x) (hlink : (topo.portTo u v).isSome)
    (hv : v ≠ t) : (topo.cost u v).toNat + x < 65535 ∧ (topo.cost u v).toNat ≤ limit ∧ u ∈ members := by
  have hmem := mem_message hpacket hx
  have ht := (hsmall.walk ((hnet.vectors t).sent v u x hmem).1 hv).2
  have hcard := (hnet.vectors t).known_card_lt ht
  have hle := (hnet.bounded t).sent v u x hmem
  have hcheap := hsmall.cheap u v hlink
  have hroom := hsmall.room
  have hmul : limit * (((net.view t).known members).card + 1) ≤ limit * members.card :=
    Nat.mul_le_mul_left limit hcard
  rw [Nat.mul_succ] at hmul
  exact ⟨by omega, hcheap, hsmall.linked u v hlink⟩

/-- `record` is a record of `t` that `u` may be left with by the oldest packet of `v`. -/
structure Heard (topo : Topology) (members : Finset UInt16) (limit : Nat) (net : DvNet) (v u t : UInt16)
    (packet : Packet) (record : Option (Record UInt16)) : Prop where
  inv : (((net.view t).take v u).put u record).Inv topo.weight t
  bounded : (((net.view t).take v u).put u record).Bounded members limit
  lowered : Vectors.Lowered ((net.view t).record u) record
  offer : v ≠ t → u ≠ t → ∀ x, listed t packet = some x →
    ∃ r, record = some r ∧ r.cost ≤ (topo.cost u v).toNat + x

theorem Heard.kept (packet : Packet) (hnet : Sound topo members limit net) (v u t : UInt16)
    (hnone : v ≠ t → u ≠ t → listed t packet = none) :
    Heard topo members limit net v u t packet ((net.view t).record u) := by
  have hsame := Vectors.put_same ((net.view t).take v u) u
  rw [Vectors.take_record] at hsame
  refine ⟨?_, ?_, .refl _, fun hv hu x hx => ?_⟩
  · rw [hsame]
    exact (hnet.vectors t).take v u
  · rw [hsame]
    exact (hnet.bounded t).take v u
  · rw [hnone hv hu] at hx
    cases hx

/-- The back door of `recv`: the sender's own way back is a walk as well. -/
private theorem heard_preferred (hnet : Sound topo members limit net) (hpacket : packet ∈ net.channel v u)
    (hlink : (topo.portTo u v).isSome) (hu : u ∈ members) {entry : Option Route × Option UInt32}
    (hentry : entry.1 = (net.router u).routingTable.get? v) {back : UInt16}
    (hback : listed u packet = some back.toNat) :
    Heard topo members limit net v u v packet (((preferred v back v entry).1).map recordOf) := by
  have hrecord : (net.view v).record u = entry.1.map recordOf := by rw [hentry, view_record]
  have hkept := Heard.kept packet hnet v u v fun h => absurd rfl h
  rw [hrecord] at hkept
  obtain ⟨_ | route, time⟩ := entry
  · exact hkept
  · simp only [preferred, true_and]
    by_cases hcheap : route.cost > back ∧ route.nextHop ≠ v
    · rw [if_pos hcheap]
      have hless : back.toNat < route.cost.toNat := UInt16.lt_iff_toNat_lt.mp hcheap.1
      have hlower : Vectors.Lowered ((net.view v).record u) (some (recordOf ⟨back, v⟩)) := by
        refine .inr ⟨_, rfl, fun r hr => ?_⟩
        obtain rfl := Option.some.inj (hrecord.symm.trans hr)
        exact hless
      have hwalk := ((hnet.vectors u).sent v u _ (mem_message hpacket hback)).1.reverse fun a b c hab => by
        obtain ⟨hlink, rfl⟩ := weight_eq_some.mp hab
        exact weight_eq_some.mpr ⟨portTo_symm hlink, by rw [topo.symmetric]⟩
      have haccounts : Vectors.Accounts topo.weight v u ((net.view v).take v u) (recordOf ⟨back, v⟩) :=
        ⟨hwalk, _, weight_eq_some.mpr ⟨hlink, rfl⟩, fun hvv => absurd rfl hvv⟩
      refine ⟨((hnet.vectors v).take v u).put (weight_self u) (ne_of_link hlink) haccounts hlower,
        ((hnet.bounded v).take v u).put hu hlower fun hnone => ?_, hlower, fun h => absurd rfl h⟩
      rw [Vectors.take_record, hrecord] at hnone
      cases hnone
    · rw [if_neg hcheap]
      exact hkept

/-- A record that `v` lists openly. -/
private theorem heard_learned (hnet : Sound topo members limit net) (hsmall : Small topo members limit)
    (hhead : net.channel v u = packet :: rest) (hlink : (topo.portTo u v).isSome) (hvt : v ≠ t) (hut : u ≠ t)
    (env : Env) {entry : Option Route × Option UInt32}
    (hentry : entry.1 = (net.router u).routingTable.get? t) {a : UInt16}
    (hlisted : listed t packet = some a.toNat) :
    Heard topo members limit net v u t packet
      (((learned env v (a + topo.cost u v) entry).1).map recordOf) := by
  have hpacket : packet ∈ net.channel v u := by simp [hhead]
  obtain ⟨hsum, hcheap, hu⟩ := hnet.sum_lt hsmall hpacket hlisted hlink hvt
  have htotal : (a + topo.cost u v).toNat = (topo.cost u v).toNat + a.toNat := by
    rw [UInt16.toNat_add]
    omega
  have hchannel : (net.view t).channel v u = some a.toNat :: rest.map (listed t) := by
    rw [view_channel, hhead, List.map_cons, hlisted]
  have hrecord : (net.view t).record u = entry.1.map recordOf := by rw [hentry, view_record]
  obtain ⟨hinv, hlower, hoffer⟩ := (hnet.vectors t).offered (weight_self u) hchannel
    (weight_eq_some.mpr ⟨hlink, rfl⟩) hut hvt
  have hbounded := (hnet.bounded t).offered (mem_message hpacket hlisted) hcheap hu hlower
  rw [learned_record, htotal, ← hrecord]
  refine ⟨hinv, hbounded, hlower, fun _ _ x hx => ?_⟩
  obtain rfl := Option.some.inj (hlisted.symm.trans hx)
  exact hoffer

/-- What the packet of `v` makes of one record of `u`. -/
private theorem heard_received (hnet : Sound topo members limit net) (hsmall : Small topo members limit)
    (hhead : net.channel v u = packet :: rest) (hlink : (topo.portTo u v).isSome) (env : Env) (t : UInt16)
    {entry : Option Route × Option UInt32} (hentry : entry.1 = (net.router u).routingTable.get? t)
    {back : UInt16} (hback : listed u packet = some back.toNat) :
    Heard topo members limit net v u t packet (((received env u v (topo.cost u v) back
      ((readTable env packet.block.memory packet.size).get? t) t entry).1).map recordOf) := by
  have hpacket : packet ∈ net.channel v u := by simp [hhead]
  have hwritten := hnet.written v u packet hpacket
  have hrecord : (net.view t).record u = entry.1.map recordOf := by rw [hentry, view_record]
  by_cases hut : u = t
  · -- no router has a route to itself, and none is learned
    subst hut
    have hnone : entry = (none, entry.2) :=
      Prod.ext (Option.map_eq_none_iff.mp (hrecord.symm.trans (hnet.vectors u).self)) rfl
    have hkept := Heard.kept packet hnet v u u fun _ h => absurd rfl h
    rw [hrecord] at hkept
    rw [hnone] at hkept ⊢
    unfold received
    split
    · exact hkept
    · rw [if_pos (.inl rfl)]
      exact hkept
  by_cases hvt : v = t
  · -- the table of `v` does not list `v`: only its way back counts
    subst hvt
    have hnone : (readTable env packet.block.memory packet.size).get? v = none := by
      obtain ⟨envS, s, _, rfl, rfl, hfew, hself, -⟩ := hwritten
      rw [readTable_of_inBounds envS s u env ((dvPacket_inBounds envS s u).mpr (by omega)), hself]
      rfl
    rw [hnone]
    exact heard_preferred hnet hpacket hlink (hsmall.linked u v hlink) hentry hback
  rw [received_of_ne _ entry (Ne.symm hvt) (Ne.symm hut)]
  have hkept (h : listed t packet = none) := Heard.kept packet hnet v u t fun _ _ => h
  rw [hrecord] at hkept
  cases hget : (readTable env packet.block.memory packet.size).get? t with
  | none =>
    refine hkept (Option.eq_none_iff_forall_ne_some.mpr fun x hx => ?_)
    obtain ⟨a, ha, -⟩ := (hwritten.listed_iff env t x).mp hx
    rw [hget] at ha
    cases ha
  | some a =>
    dsimp only
    by_cases hfinite : a = infinityCost
    · rw [if_pos hfinite]
      refine hkept (Option.eq_none_iff_forall_ne_some.mpr fun x hx => ?_)
      obtain ⟨a', ha', hne, -⟩ := (hwritten.listed_iff env t x).mp hx
      exact hne ((Option.some.inj (ha'.symm.trans hget)).trans hfinite)
    · rw [if_neg hfinite]
      exact heard_learned hnet hsmall hhead hlink hvt hut env hentry
        ((hwritten.listed_iff env t _).mpr ⟨a, hget, hfinite, rfl⟩)

theorem Written.back (h : Written v u packet) (env : Env) :
    listed u packet = some ((readTable env packet.block.memory packet.size).getD u 0).toNat := by
  have hlisted := h.listed_iff env u
  obtain ⟨envS, s, back, rfl, -, hfew, -, hback, hfinite⟩ := h
  have hget : (readTable env (dvPacket envS s u).block.memory (dvPacket envS s u).size).get? u =
      some back.cost := by
    rw [readTable_of_inBounds envS s u env ((dvPacket_inBounds envS s u).mpr (by omega)), hback,
      Option.map_some, announcedCost, if_neg fun h => h.2 rfl]
  rw [Table.getD_of_get? 0 hget]
  exact (hlisted _).mpr ⟨_, hget, hfinite, rfl⟩

private theorem posted_calls {a : UInt16} {r r' : Router} {calls : List SysCall}
    (h : calls = [] ∧ r'.routingTable = r.routingTable ∨ calls = send env r') :
    (∀ w, posted topo a w calls = []) ∧ (∀ t, r'.routingTable.get? t = r.routingTable.get? t) ∨
      ∃ env, ∀ w, posted topo a w calls = posted topo a w (send env r') := by
  rcases h with ⟨rfl, hsame⟩ | rfl
  · exact .inl ⟨fun _ => rfl, fun t => by rw [hsame]⟩
  · exact .inr ⟨env, fun _ => rfl⟩

theorem turn_deliver (hnet : Sound topo members limit net) (hsmall : Small topo members limit)
    (hport : topo.portTo u v = some port) (hhead : net.channel v u = packet :: rest)
    (hrun : handle env (net.router u) (.packet port packet) = some out) :
    Turn topo members limit (net.take v u) u out ∧ (net.up u v → ∀ t,
      Heard topo members limit net v u t packet ((out.1.routingTable.get? t).map recordOf)) ∧
      ∀ w, out.1.neighborTable.contains w = net.up u w := by
  have hwritten := hnet.written v u packet (by simp [hhead])
  have hlinked : (topo.portTo u v).isSome := by simp [hport]
  have hsource := hwritten.source
  have hrecv : recv env port packet.block.memory packet.size (net.router u) = some (out.1, out.2) :=
    (hwritten.handle_eq env (net.router u) port).symm.trans hrun
  have hfrom := fromAttached_of_link hport hsource
  obtain ⟨r', calls', hrun', hrouter⟩ := (hnet.router u).handle (topo.wired u) env
    (show DvEvent (topo.attached u) (topo.numPorts u) (.packet port packet) by
      simp only [DvEvent, hwritten.type]
      exact hfrom)
  obtain ⟨rfl, -⟩ := Prod.mk.inj (Option.some.inj (hrun.symm.trans hrun'))
  obtain ⟨hflag, hcalls⟩ := recv_calls (hnet.flag u) hrecv
  cases hlink : (net.router u).neighborTable.get? v with
  | none =>
    rw [recv_of_not_neighbor env port _ _ _ (hsource ▸ hlink)] at hrecv
    have hsame : net.router u = out.1 := congrArg Prod.fst (Option.some.inj hrecv)
    have hsameUp (w : UInt16) : out.1.neighborTable.contains w = net.up u w := hsame ▸ rfl
    refine ⟨.of_same (hnet.take v u) hrouter hflag (hsame ▸ hnet.links u) hsameUp (fun t => ?_)
      ((posted_calls hcalls).imp And.left id), fun hup => ?_, hsameUp⟩
    · rw [← hsame]
      rfl
    · simp [DvNet.up, Table.contains_eq, hlink] at hup
  | some link =>
    obtain ⟨hcost, hlinkPort⟩ := hnet.links u v link hlink
    have hportTable : (net.router u).portTable.get? port = some v := by
      have hknown := (hnet.router u).ports.linked v link hlink
      rwa [Option.some.inj (hlinkPort.symm.trans hport)] at hknown
    obtain ⟨r'', _, hrecv', hkeeps, heffect⟩ := recv_effect env port packet.block.memory packet.size
      (net.router u) link (hsource ▸ hportTable) (hsource ▸ hlink)
    obtain rfl : out.1 = r'' := congrArg Prod.fst (Option.some.inj (hrecv.symm.trans hrecv'))
    have hheard (t : UInt16) :
        Heard topo members limit net v u t packet ((out.1.routingTable.get? t).map recordOf) := by
      have hreceived := heard_received hnet hsmall hhead hlinked env t
        (show (entryAt (net.router u) t).1 = _ from rfl) (hwritten.back env)
      rw [show out.1.routingTable.get? t = _ from congrArg Prod.fst (heffect t), (hnet.router u).routerId,
        hsource, hcost]
      exact hreceived
    refine ⟨⟨hrouter, hflag, fun n l hl => hnet.links u n l (hkeeps.neighborTable ▸ hl), fun n hn => ?_,
      fun t => ?_, fun t => ?_, fun t => (hheard t).lowered, ?_⟩, fun _ => hheard,
      fun w => hkeeps.neighborTable ▸ rfl⟩
    · rw [hkeeps.neighborTable] at hn
      obtain ⟨route, hroute, hle⟩ := hnet.direct u n hn
      obtain ⟨record, hrecord, hless⟩ := (hheard n).lowered.le (r := recordOf route) (by simp [hroute])
      obtain ⟨route', hroute', rfl⟩ := Option.map_eq_some_iff.mp hrecord
      exact ⟨route', hroute', UInt16.le_trans (UInt16.le_iff_toNat_le.mpr hless) hle⟩
    · rw [view_take]
      exact (hheard t).inv
    · rw [view_take]
      exact (hheard t).bounded
    · refine (posted_calls hcalls).imp (fun h => ⟨h.1, h.2, fun w => ?_⟩) id
      rw [hkeeps.neighborTable]
      rfl

end Deliver

/-- `update` for a link that has just come up enters the route over it, unless there is a cheaper one. -/
private theorem update_new_link {env : Env} {r : Router} {id rtt : UInt16} {link : Link}
    (hlink : r.neighborTable.get? id = some link) (hcost : link.cost = rtt)
    (hhop : ∀ d route, r.routingTable.get? d = some route → route.nextHop ≠ id)
    (hdirect : ∀ n link route, n ≠ id → r.neighborTable.get? n = some link →
      r.routingTable.get? n = some route → route.cost ≤ link.cost)
    (hpos : 0 < rtt.toNat) (hfit : rtt.toNat + rtt.toNat < 65536) (t : UInt16) :
    (update env id rtt 0 r).routingTable.get? t =
      if t = id ∧ ∀ route, r.routingTable.get? id = some route → rtt < route.cost then some ⟨rtt, id⟩
      else r.routingTable.get? t := by
  cases hroute : r.routingTable.get? id with
  | none =>
    rw [update_of_no_route env id rtt 0 r hroute, setDirect]
    simp [Table.get?_insert]
  | some route =>
    have hother := hhop id route hroute
    by_cases hcheap : rtt < route.cost
    · have heffect := congrArg Prod.fst ((update_effect env id rtt 0 r route hroute (.inr hcheap)).2 t)
      rw [show (update env id rtt 0 r).routingTable.get? t = _ from heffect]
      by_cases ht : t = id
      · have hsum : rtt < rtt + rtt := by
          rw [UInt16.lt_iff_toNat_lt, UInt16.toNat_add, Nat.mod_eq_of_lt hfit]
          omega
        simp [adjusted, ht, hlink, hcost, hcheap, hsum]
      · rw [if_neg ht, if_neg fun h => ht h.1]
        cases hold : r.routingTable.get? t with
        | none => simp [entryAt, hold, adjusted]
        | some old =>
          simp only [entryAt, hold, adjusted, if_neg (hhop t old hold)]
          cases hl : r.neighborTable.get? t with
          | none => rfl
          | some l => simp [UInt16.not_lt.mpr (hdirect t l old ht hl hold)]
    · rw [update_of_kept env id rtt 0 r route hroute (not_or.mpr ⟨hother, hcheap⟩)]
      simp [hcheap]

section Pong

variable {env : Env} {port : UInt16} {packet : Packet} {out : Router × List SysCall}

/-- The records of `u` when the link to `v` has come up. -/
private theorem linked_record (hnet : Sound topo members limit net) (hsmall : Small topo members limit)
    (hlink : (topo.portTo u v).isSome) (t : UInt16) {route : Option Route}
    (hroute : route = if t = v ∧ ∀ old, (net.router u).routingTable.get? v = some old →
      topo.cost u v < old.cost then some ⟨topo.cost u v, v⟩ else (net.router u).routingTable.get? t) :
    ((net.view t).put u (route.map recordOf)).Inv topo.weight t ∧
      ((net.view t).put u (route.map recordOf)).Bounded members limit ∧
      Vectors.Lowered ((net.view t).record u) (route.map recordOf) := by
  by_cases hcond : t = v ∧ ∀ old, (net.router u).routingTable.get? v = some old → topo.cost u v < old.cost
  · obtain ⟨rfl, hcheap⟩ := hcond
    rw [if_pos ⟨rfl, hcheap⟩] at hroute
    subst hroute
    have hweight : topo.weight u t = some (topo.cost u t).toNat := weight_eq_some.mpr ⟨hlink, rfl⟩
    have hlower : Vectors.Lowered ((net.view t).record u) (some (recordOf ⟨topo.cost u t, t⟩)) := by
      refine .inr ⟨_, rfl, fun r hr => ?_⟩
      obtain ⟨old, hold, rfl⟩ := Option.map_eq_some_iff.mp hr
      exact UInt16.lt_iff_toNat_lt.mp (hcheap old hold)
    refine ⟨(hnet.vectors t).put (weight_self u) (ne_of_link hlink)
      ⟨.cons hweight (.nil t), _, hweight, fun h => absurd rfl h⟩ hlower,
      (hnet.bounded t).put (hsmall.linked u t hlink) hlower fun _ => ?_, hlower⟩
    exact (hsmall.cheap u t hlink).trans (Nat.le_add_right _ _)
  · rw [if_neg hcond] at hroute
    subst hroute
    have hsame := (net.view t).put_same u
    rw [view_record] at hsame
    refine ⟨?_, ?_, .refl _⟩
    · rw [hsame]
      exact hnet.vectors t
    · rw [hsame]
      exact hnet.bounded t

/-- What `recv_pong` does to a router on the link to `v`, up to the call of `update`. -/
structure Noted (topo : Topology) (net : DvNet) (env : Env) (u v port : UInt16)
    (noted : Router × UInt16 × Bool) :
    Prop where
  flag : noted.1.isUpdated = true
  links : ∀ n link, noted.1.neighborTable.get? n = some link →
    link.cost = topo.cost u n ∧ topo.portTo u n = some link.port
  up : ∀ w, noted.1.neighborTable.contains w = (decide (w = v) || net.up u w)
  routes : noted.1.routingTable = (net.router u).routingTable
  known : net.up u v → noted.2.2 = false
  new : ¬ net.up u v → noted.2 = (0, true)

private theorem noted_of_sound (hnet : Sound topo members limit net) (hport : topo.portTo u v = some port)
    (env : Env) : Noted topo net env u v port (notePong env port v (topo.cost u v) (net.router u)) := by
  have hinv := hnet.router u
  obtain ⟨-, q, -, hfar⟩ := topo.links u v port hport
  have hv : topo.attached u port = v := congrArg Prod.fst hfar
  obtain ⟨hlinks, -⟩ := notePong_tables env port (topo.cost u v) hinv.ports
  have hroutes := notePong_routingTable env port (topo.cost u v) hinv.tables hinv.ports
  rw [hv] at hlinks hroutes
  have hknown : (net.router u).portTable.contains port ↔ net.up u v := by
    rw [DvNet.up, Table.contains_eq, Table.contains_eq, Option.isSome_iff_exists, Option.isSome_iff_exists]
    constructor
    · rintro ⟨n, hn⟩
      obtain ⟨-, rfl, link, hlink, -⟩ := hinv.ports.known port n hn
      exact ⟨link, hv ▸ hlink⟩
    · rintro ⟨link, hlink⟩
      have hlp := Option.some.inj ((hnet.links u v link hlink).2.symm.trans hport)
      exact ⟨v, hlp ▸ hinv.ports.linked v link hlink⟩
  constructor
  case flag =>
    unfold notePong
    split <;> exact hnet.flag u
  case links =>
    intro n link hn
    rw [hlinks] at hn
    split at hn
    · rename_i hnv
      obtain rfl := Option.some.inj hn
      subst hnv
      exact ⟨rfl, hport⟩
    · exact hnet.links u n link hn
  case up =>
    intro w
    rw [Table.contains_eq, hlinks, DvNet.up, Table.contains_eq]
    by_cases hw : w = v <;> simp [hw]
  case routes => exact hroutes
  case known =>
    intro hup
    obtain ⟨link, hlink, -, heq⟩ := notePong_of_known env port (topo.cost u v) hinv.ports (hknown.mpr hup)
    rw [hv] at hlink heq
    rw [heq]
    simp [(hnet.links u v link hlink).1]
  case new =>
    intro hdown
    have hnew : (notePong env port (topo.attached u port) (topo.cost u v) (net.router u)).2 = (0, true) := by
      rw [notePong_of_new env port (topo.cost u v) (mt hknown.mp hdown)]
    rwa [hv] at hnew

private theorem route_of_new (hnet : Sound topo members limit net) (hsmall : Small topo members limit)
    (hport : topo.portTo u v = some port) (hdown : ¬ net.up u v) (env : Env) (t : UInt16) :
    (update env v (topo.cost u v) 0
      (notePong env port v (topo.cost u v) (net.router u)).1).routingTable.get? t =
      if t = v ∧ ∀ old, (net.router u).routingTable.get? v = some old → topo.cost u v < old.cost then
        some ⟨topo.cost u v, v⟩
      else (net.router u).routingTable.get? t := by
  have hnoted := noted_of_sound hnet hport env
  have hlinked : (topo.portTo u v).isSome := by simp [hport]
  have hfit : (topo.cost u v).toNat + (topo.cost u v).toNat < 65536 := by
    have hpair : ({u, v} : Finset UInt16) ⊆ members := by
      intro w hw
      rcases Finset.mem_insert.mp hw with rfl | hw
      · exact hsmall.linked _ v hlinked
      · exact Finset.mem_singleton.mp hw ▸ hsmall.linked v u (portTo_symm hlinked)
    have hcard := Finset.card_le_card hpair
    rw [Finset.card_pair (ne_of_link hlinked)] at hcard
    have hle := hsmall.cheap u v hlinked
    have hmul := Nat.mul_le_mul_left limit hcard
    have hroom := hsmall.room
    omega
  have hup : (notePong env port v (topo.cost u v) (net.router u)).1.neighborTable.contains v := by
    simp [hnoted.up]
  obtain ⟨link, hlink⟩ := Option.isSome_iff_exists.mp hup
  rw [update_new_link hlink (hnoted.links v link hlink).1 (fun d route hroute hhop => ?_)
    (fun n link route hn hlink hroute => ?_) (topo.positive u v) hfit, hnoted.routes]
  · rw [hnoted.routes] at hroute
    exact hdown (hhop ▸ ((hnet.router u).tables d).hop route hroute)
  · rw [hnoted.routes] at hroute
    have hn' : net.up u n := by
      have hcontains := hnoted.up n
      rw [Table.contains_eq, hlink] at hcontains
      simpa [hn] using hcontains.symm
    obtain ⟨route', hroute', hle⟩ := hnet.direct u n hn'
    obtain rfl := Option.some.inj (hroute.symm.trans hroute')
    exact (hnoted.links n link hlink).1 ▸ hle

theorem turn_pong (hnet : Sound topo members limit net) (hsmall : Small topo members limit)
    (hport : topo.portTo u v = some port) (hpong : PongOver topo env u v packet)
    (hrun : handle env (net.router u) (.packet port packet) = some out) :
    Turn topo members limit net u out ∧
      ∀ w, out.1.neighborTable.contains w = (decide (w = v) || net.up u w) := by
  have hinv := hnet.router u
  have hnoted := noted_of_sound hnet hport env
  obtain ⟨r', calls', hrun', hrouter⟩ := hinv.handle (topo.wired u) env
    (show DvEvent (topo.attached u) (topo.numPorts u) (.packet port packet) by
      simp only [DvEvent, hpong.type]
      exact fromAttached_of_link hport hpong.source)
  obtain ⟨rfl, -⟩ := Prod.mk.inj (Option.some.inj (hrun.symm.trans hrun'))
  have hhandle : handle env (net.router u) (.packet port packet) =
      some (recvPong env port packet.block.memory (net.router u)) := by
    simp only [handle, Router.recv, hpong.type]
  have hout := Option.some.inj (hhandle.symm.trans hrun)
  rw [recvPong_dv env port _ _ hinv.mode, hinv.routerId, hpong.dest, if_pos rfl, hpong.source,
    hpong.cost] at hout
  generalize hnotedEq : notePong env port v (topo.cost u v) (net.router u) = noted at hnoted hout
  by_cases hup : net.up u v
  · rw [hnoted.known hup] at hout
    simp only [Bool.false_eq_true, if_false] at hout
    subst hout
    refine ⟨.of_same hnet hrouter hnoted.flag hnoted.links (fun w => ?_) (fun t => by rw [hnoted.routes])
      (.inl fun w => rfl), hnoted.up⟩
    rw [hnoted.up]
    by_cases hw : w = v
    · simp [hw, hup]
    · simp [hw]
  · rw [hnoted.new hup] at hout
    simp only [if_true] at hout
    have hkeeps := update_keepsLinks env v (topo.cost u v) 0 noted.1
    have hroute (t : UInt16) := route_of_new hnet hsmall hport hup env t
    rw [hnotedEq] at hroute
    have hrecord (t : UInt16) := linked_record hnet hsmall (by simp [hport]) t (hroute t)
    subst hout
    have hcontains (w : UInt16) : (update env v (topo.cost u v) 0 noted.1).neighborTable.contains w =
        (decide (w = v) || net.up u w) := by rw [hkeeps.neighborTable, hnoted.up]
    refine ⟨⟨hrouter, (update_isUpdated ..).trans hnoted.flag,
      fun n link hn => hnoted.links n link (hkeeps.neighborTable ▸ hn), fun n hn => ?_,
      fun t => (hrecord t).1, fun t => (hrecord t).2.1, fun t => (hrecord t).2.2,
      .inr ⟨env, fun w => rfl⟩⟩, hcontains⟩
    rw [hcontains] at hn
    by_cases hcond : n = v ∧ ∀ old, (net.router u).routingTable.get? v = some old →
        topo.cost u v < old.cost
    · refine ⟨⟨topo.cost u v, v⟩, (hroute n).trans (if_pos hcond), ?_⟩
      rw [hcond.1]
      exact UInt16.le_refl _
    · have hsame := (hroute n).trans (if_neg hcond)
      by_cases hnv : n = v
      · subst hnv
        simp only [true_and, not_forall] at hcond
        obtain ⟨old, hold, hle⟩ := hcond
        exact ⟨old, hsame.trans hold, UInt16.not_lt.mp hle⟩
      · obtain ⟨route, hr, hle⟩ := hnet.direct u n (by simpa [hnv] using hn)
        exact ⟨route, hsame.trans hr, hle⟩

end Pong

theorem posted_append (a b : UInt16) (calls calls' : List SysCall) :
    posted topo a b (calls ++ calls') = posted topo a b calls ++ posted topo a b calls' :=
  List.filterMap_append

@[simp] theorem posted_setAlarm (a b : UInt16) (duration : UInt32) (alarm : Alarm) :
    posted topo a b [.setAlarm duration alarm] = [] := rfl

private theorem posted_eq_nil (a b : UInt16) {calls : List SysCall}
    (h : ∀ port packet, SysCall.send port packet ∈ calls →
      PacketType.ofCode (packet.block.memory 0) ≠ some .dv) : posted topo a b calls = [] := by
  refine List.filterMap_eq_nil_iff.mpr fun call hcall => ?_
  cases call with
  | send port packet => exact if_neg fun hdv => h port packet hcall hdv.2
  | setAlarm duration alarm => rfl

private theorem posted_sendPings (a b : UInt16) (env : Env) (r : Router) :
    posted topo a b (sendPings env r) = [] := by
  refine posted_eq_nil a b fun port packet hsend => ?_
  obtain ⟨p, -, heq⟩ := List.mem_map.mp hsend
  rw [sendPing_eq] at heq
  obtain ⟨-, rfl⟩ := SysCall.send.inj heq
  simp [pingPacket_type]

private theorem posted_pong (a b : UInt16) (env : Env) (port : UInt16) (msg : Memory) (r : Router) :
    posted topo a b (recvPingSendPong env port msg r) = [] := by
  rw [recvPingSendPong_eq]
  refine posted_eq_nil a b fun port' packet hsend => ?_
  obtain ⟨-, rfl⟩ := SysCall.send.inj (List.mem_singleton.mp hsend)
  simp [pongPacket_type]

private theorem posted_recvData (a b : UInt16) {packet : Packet} (r : Router)
    (htype : PacketType.ofCode (packet.block.memory 0) = some .data) :
    posted topo a b (recvData packet r) = [] := by
  refine posted_eq_nil a b fun port packet' hsend => ?_
  unfold recvData at hsend
  dsimp only at hsend
  split at hsend
  · cases hsend
  · split at hsend
    · cases hsend
    · split at hsend
      · cases hsend
      · obtain ⟨-, rfl⟩ := SysCall.send.inj (List.mem_singleton.mp hsend)
        simp [htype]

private theorem sweep_of_nothingDue {env : Env} {r r' : Router} {calls : List SysCall} (h : NothingDue env r)
    (hmode : r.protocolType = .dv) (htables : TablesMatch r)
    (hrun : updateTimeout env r = some (r', calls)) :
    refresh env r = some (r', calls) ∧ KeepsLinks r r' ∧
      ∀ t, r'.routingTable.get? t = r.routingTable.get? t := by
  have hnone : expired env r.neighborTable = [] := by
    refine List.eq_nil_iff_forall_not_mem.mpr fun e he => ?_
    obtain ⟨hlink, hdead⟩ := (mem_expired env r.neighborTable e.1 e.2).mp he
    simp [alive, h.links e.1 e.2 hlink] at hdead
  have hdrop : dropExpired env r = r := by rw [dropExpired, hnone, List.foldl_nil]
  rw [updateTimeout_dv env (hdrop.symm ▸ hmode), hdrop, hnone] at hrun
  simp only [List.map_nil, ne_eq, not_true_eq_false, decide_false, Bool.false_eq_true, if_false] at hrun
  obtain ⟨r'', calls', hrun', hkeeps, heffect⟩ := refresh_effect env r
    fun d hd => (htables d).deadline ▸ hd
  obtain ⟨rfl, rfl⟩ := Prod.mk.inj (Option.some.inj (hrun.symm.trans hrun'))
  refine ⟨hrun, hkeeps, fun t => ?_⟩
  rw [show r'.routingTable.get? t = _ from congrArg Prod.fst (heffect t)]
  cases hroute : r.routingTable.get? t with
  | none => simp [entryAt, hroute, refreshed]
  | some route =>
    have hdeadline := (htables t).deadline
    simp only [entryAt, hroute, Option.isSome_some, Option.isSome_iff_exists] at hdeadline
    obtain ⟨time, htime⟩ := hdeadline
    simp only [entryAt, hroute, htime, refreshed]
    rw [if_neg]
    by_cases hdirect : t = route.nextHop
    · rw [if_pos hdirect]
      exact UInt32.not_le.mpr h.renewal
    · rw [if_neg hdirect]
      exact UInt32.not_le.mpr (h.routes t route time hroute htime (Ne.symm hdirect))

theorem turn_routine (hnet : Sound topo members limit net) {env : Env} {event : Event}
    {out : Router × List SysCall} (hevent : Routine env (net.router u) event)
    (hrun : handle env (net.router u) event = some out) :
    Turn topo members limit net u out ∧ (∀ w, out.1.neighborTable.contains w = net.up u w) ∧
      (event = .alarm .dv → ∀ w, posted topo u w out.2 = posted topo u w (send env out.1)) := by
  have hinv := hnet.router u
  have hsilent {calls : List SysCall} (hposted : ∀ w, posted topo u w calls = []) :
      Turn topo members limit net u (net.router u, calls) :=
    .of_same hnet hinv (hnet.flag u) (hnet.links u) (fun _ => rfl) (fun _ => rfl) (.inl hposted)
  cases event with
  | packet port packet =>
    simp only [Routine] at hevent
    simp only [handle, Router.recv] at hrun
    cases htype : PacketType.ofCode (packet.block.memory 0) with
    | none =>
      rw [htype] at hrun
      obtain rfl := Option.some.inj hrun
      exact ⟨hsilent fun _ => rfl, fun _ => rfl, by rintro ⟨⟩⟩
    | some type =>
      rw [htype] at hevent hrun
      cases type with
      | data =>
        obtain rfl := Option.some.inj hrun
        exact ⟨hsilent fun w => posted_recvData u w _ htype, fun _ => rfl, by rintro ⟨⟩⟩
      | ping =>
        obtain rfl := Option.some.inj hrun
        exact ⟨hsilent fun w => posted_pong u w env port _ _, fun _ => rfl, by rintro ⟨⟩⟩
      | pong | dv | ls => exact hevent.elim
  | alarm alarm =>
    cases alarm with
    | ls => exact hevent.elim
    | ping =>
      obtain rfl := Option.some.inj hrun
      refine ⟨hsilent fun w => ?_, fun _ => rfl, by rintro ⟨⟩⟩
      rw [posted_append, posted_sendPings, posted_setAlarm, List.append_nil]
    | dv =>
      obtain rfl := Option.some.inj hrun
      have hposted (w : UInt16) : posted topo u w (send env (net.router u) ++ [.setAlarm dvDuration .dv]) =
          posted topo u w (send env (net.router u)) := by
        rw [posted_append, posted_setAlarm, List.append_nil]
      exact ⟨.of_same hnet hinv (hnet.flag u) (hnet.links u) (fun _ => rfl) (fun _ => rfl)
        (.inr ⟨env, hposted⟩), fun _ => rfl, fun _ => hposted⟩
    | port =>
      obtain ⟨⟨r', calls⟩, hupdate, rfl⟩ := Option.map_eq_some_iff.mp hrun
      obtain ⟨_, _, hupdate', hrouter⟩ := hinv.updateTimeout env
      obtain ⟨rfl, rfl⟩ := Prod.mk.inj (Option.some.inj (hupdate.symm.trans hupdate'))
      obtain ⟨hrefresh, hkeeps, hroutes⟩ := sweep_of_nothingDue hevent hinv.mode hinv.tables hupdate
      obtain ⟨hflag, hcalls⟩ := refresh_calls hrefresh
      have hup (w : UInt16) : r'.neighborTable.contains w = net.up u w := hkeeps.neighborTable ▸ rfl
      refine ⟨.of_same hnet hrouter hflag (fun n link hn => ?_) hup hroutes ?_, hup, by rintro ⟨⟩⟩
      · exact hnet.links u n link (hkeeps.neighborTable ▸ hn)
      · simp only [posted_append, posted_setAlarm, List.append_nil]
        exact (posted_calls hcalls).imp And.left id

end Comp556.Dv
