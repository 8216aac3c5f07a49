import Comp556.Foundation.Walk
import Mathlib.Algebra.Order.BigOperators.Group.Finset
import Mathlib.Data.Finset.Card
import Mathlib.Logic.Function.Basic

/-!
# Distance vectors towards one target

Nodes record a cost to a target and the next hop of the route to it, and tell their neighbours over
queues. A message is a cost, or `none` where the sender has no route or hides it from a reader it goes
through. Messages may be lost but do not overtake each other, and records only get cheaper.
-/

namespace Comp556

variable {V : Type*}

def Weighted (weight : V → V → Option Nat) (u v : V) (c : Nat) : Prop := weight u v = some c

structure Record (V : Type*) where
  cost : Nat
  nextHop : V

/-- The record of each node, and the messages between two nodes, oldest first. -/
structure Vectors (V : Type*) where
  record : V → Option (Record V)
  channel : V → V → List (Option Nat)

namespace Vectors

/-- Records account for a walk to the target, and next hops and messages never promise less than what
the node itself has come to know. -/
structure Inv (weight : V → V → Option Nat) (t : V) (s : Vectors V) : Prop where
  self : s.record t = none
  walk : ∀ u r, s.record u = some r → Walk (Weighted weight) u t r.cost
  hop : ∀ u r, s.record u = some r → ∃ c, weight u r.nextHop = some c ∧ (r.nextHop ≠ t →
    (∃ r', s.record r.nextHop = some r' ∧ c + r'.cost ≤ r.cost) ∧
      ∀ x, some x ∈ s.channel r.nextHop u → c + x ≤ r.cost)
  sent : ∀ v u x, some x ∈ s.channel v u →
    Walk (Weighted weight) v t x ∧ ∃ r, s.record v = some r ∧ r.cost ≤ x
  falling : ∀ v u, (s.channel v u).Pairwise fun a b => ∀ x y, a = some x → b = some y → y ≤ x

variable {weight : V → V → Option Nat} {t u v w : V} {s s' : Vectors V} {r : Record V}

/-- A record is kept, or replaced by a cheaper one. -/
def Lowered (before after : Option (Record V)) : Prop :=
  after = before ∨ ∃ r', after = some r' ∧ ∀ r, before = some r → r'.cost < r.cost

theorem Lowered.refl (before : Option (Record V)) : Lowered before before := .inl rfl

theorem Lowered.le {before after : Option (Record V)} (h : Lowered before after) (hr : before = some r) :
    ∃ r', after = some r' ∧ r'.cost ≤ r.cost := by
  rcases h with rfl | ⟨r', hr', hlt⟩
  · exact ⟨r, hr, Nat.le_refl _⟩
  · exact ⟨r', hr', (hlt r hr).le⟩

/-- Costs fall along next hops at any time, so following them leads to the target and visits no node twice. -/
theorem Inv.trail (h : s.Inv weight t) (hpos : ∀ u v c, weight u v = some c → 0 < c)
    (hr : s.record u = some r) :
    ∃ path n, Trail (fun a b => ∃ r, s.record a = some r ∧ r.nextHop = b) (Weighted weight) u t path n ∧
      path.Nodup ∧ ∀ w ∈ path, w = t ∨ ∃ r', s.record w = some r' ∧ r'.cost ≤ r.cost := by
  induction hn : r.cost using Nat.strongRecOn generalizing u r with
  | ind n ih =>
    obtain ⟨c, hc, hnext⟩ := h.hop u r hr
    have hut : u ≠ t := by
      intro heq
      rw [heq, h.self] at hr
      cases hr
    by_cases hhop : r.nextHop = t
    · refine ⟨[u, t], c + 0, .cons ⟨r, hr, hhop⟩ (hhop ▸ hc) (.nil t), by simp [hut], fun w hw => ?_⟩
      rcases List.mem_pair.mp hw with rfl | rfl
      · exact .inr ⟨r, hr, hn.le⟩
      · exact .inl rfl
    · obtain ⟨⟨r', hr', hle⟩, -⟩ := hnext hhop
      have hless := hpos _ _ _ hc
      obtain ⟨path, m, htrail, hnodup, hbound⟩ := ih r'.cost (by omega) hr' rfl
      refine ⟨u :: path, c + m, .cons ⟨r, hr, rfl⟩ hc htrail, List.nodup_cons.mpr ⟨fun hmem => ?_, hnodup⟩, ?_⟩
      · rcases hbound u hmem with heq | ⟨r'', hr'', hle'⟩
        · exact hut heq
        · obtain rfl := Option.some.inj (hr.symm.trans hr'')
          omega
      · intro w hw
        rcases List.mem_cons.mp hw with rfl | hw
        · exact .inr ⟨r, hr, hn.le⟩
        · rcases hbound w hw with heq | ⟨r'', hr'', hle'⟩
          · exact .inl heq
          · exact .inr ⟨r'', hr'', by omega⟩

/-- Messages that are gone leave an invariant state behind. -/
theorem Inv.sublist (h : s.Inv weight t) (hrecord : s'.record = s.record)
    (hsub : ∀ v u, (s'.channel v u).Sublist (s.channel v u)) : s'.Inv weight t where
  self := hrecord ▸ h.self
  walk := hrecord ▸ h.walk
  hop u r hr := by
    rw [hrecord] at hr ⊢
    obtain ⟨c, hc, hnext⟩ := h.hop u r hr
    exact ⟨c, hc, fun hhop => ⟨(hnext hhop).1, fun x hx => (hnext hhop).2 x ((hsub _ _).subset hx)⟩⟩
  sent v u x hx := by
    rw [hrecord]
    exact h.sent v u x ((hsub v u).subset hx)
  falling v u := (h.falling v u).sublist (hsub v u)

variable [DecidableEq V]

def put (s : Vectors V) (u : V) (record : Option (Record V)) : Vectors V :=
  { s with record := Function.update s.record u record }

@[simp] theorem put_channel (s : Vectors V) (u : V) (record : Option (Record V)) :
    (s.put u record).channel = s.channel := rfl

@[simp] theorem put_self (s : Vectors V) (u : V) (record : Option (Record V)) :
    (s.put u record).record u = record := Function.update_self ..

theorem put_of_ne (s : Vectors V) (record : Option (Record V)) (h : w ≠ u) :
    (s.put u record).record w = s.record w := Function.update_of_ne h ..

theorem put_same (s : Vectors V) (u : V) : s.put u (s.record u) = s := by
  rw [put, Function.update_eq_self]

/-- What it takes to enter a record: it stands for a walk over its next hop, at no less than what the
next hop knows or is still saying. -/
structure Accounts (weight : V → V → Option Nat) (t u : V) (s : Vectors V) (r : Record V) : Prop where
  walk : Walk (Weighted weight) u t r.cost
  hop : ∃ c, weight u r.nextHop = some c ∧ (r.nextHop ≠ t →
    (∃ r', s.record r.nextHop = some r' ∧ c + r'.cost ≤ r.cost) ∧
      ∀ x, some x ∈ s.channel r.nextHop u → c + x ≤ r.cost)

theorem Inv.put (h : s.Inv weight t) (hirrefl : weight u u = none) (hu : u ≠ t)
    (haccounts : Accounts weight t u s r) (hlower : Lowered (s.record u) (some r)) :
    (s.put u (some r)).Inv weight t := by
  have hlowered {w : V} {r₀ : Record V} (hw : s.record w = some r₀) :
      ∃ r', (s.put u (some r)).record w = some r' ∧ r'.cost ≤ r₀.cost := by
    by_cases hwu : w = u
    · subst hwu
      rw [put_self]
      exact hlower.le hw
    · exact ⟨r₀, (put_of_ne s _ hwu).trans hw, Nat.le_refl _⟩
  have hhop {w : V} {r₀ : Record V} (hw : ∃ c, weight w r₀.nextHop = some c ∧ (r₀.nextHop ≠ t →
      (∃ r', s.record r₀.nextHop = some r' ∧ c + r'.cost ≤ r₀.cost) ∧
        ∀ x, some x ∈ s.channel r₀.nextHop w → c + x ≤ r₀.cost)) :
      ∃ c, weight w r₀.nextHop = some c ∧ (r₀.nextHop ≠ t →
        (∃ r', (s.put u (some r)).record r₀.nextHop = some r' ∧ c + r'.cost ≤ r₀.cost) ∧
          ∀ x, some x ∈ s.channel r₀.nextHop w → c + x ≤ r₀.cost) := by
    obtain ⟨c, hc, hnext⟩ := hw
    refine ⟨c, hc, fun hne => ?_⟩
    obtain ⟨⟨r', hr', hle⟩, hmsgs⟩ := hnext hne
    obtain ⟨r'', hr'', hle'⟩ := hlowered hr'
    exact ⟨⟨r'', hr'', by omega⟩, hmsgs⟩
  constructor
  case self => exact (put_of_ne s _ hu.symm).trans h.self
  case walk =>
    intro w r₀ hw
    by_cases hwu : w = u
    · subst hwu
      rw [put_self] at hw
      exact Option.some.inj hw ▸ haccounts.walk
    · exact h.walk w r₀ ((put_of_ne s _ hwu).symm.trans hw)
  case hop =>
    intro w r₀ hw
    by_cases hwu : w = u
    · subst hwu
      rw [put_self] at hw
      obtain rfl := Option.some.inj hw
      exact hhop haccounts.hop
    · exact hhop (h.hop w r₀ ((put_of_ne s _ hwu).symm.trans hw))
  case sent =>
    intro v w x hx
    obtain ⟨hwalk, r₀, hr₀, hle⟩ := h.sent v w x hx
    obtain ⟨r', hr', hle'⟩ := hlowered hr₀
    exact ⟨hwalk, r', hr', by omega⟩
  case falling => exact h.falling

/-- What a node tells a neighbour: its cost, unless its route goes through that neighbour. -/
def told (t : V) (s : Vectors V) (v u : V) : Option Nat :=
  (s.record v).bind fun r => if r.nextHop = u ∧ t ≠ u then none else some r.cost

/-- The node tells the neighbours of its audience. -/
def tell (t : V) (s : Vectors V) (v : V) (audience : V → Bool) : Vectors V :=
  { s with channel := fun a b =>
      s.channel a b ++ if a = v ∧ audience b then [s.told t a b] else [] }

@[simp] theorem tell_record (s : Vectors V) (v : V) (audience : V → Bool) :
    (s.tell t v audience).record = s.record := rfl

private theorem cost_of_told {x : Nat} (h : s.told t v u = some x) : ∃ r, s.record v = some r ∧ r.cost = x := by
  obtain ⟨r, hr, hx⟩ := Option.bind_eq_some_iff.mp h
  split at hx
  · cases hx
  · exact ⟨r, hr, Option.some.inj hx⟩

theorem Inv.tell (h : s.Inv weight t) (v : V) (audience : V → Bool) : (s.tell t v audience).Inv weight t := by
  have hmem {a b : V} {x : Nat} (hx : some x ∈ (s.tell t v audience).channel a b) :
      some x ∈ s.channel a b ∨ ∃ r, s.record a = some r ∧ r.cost = x := by
    rcases List.mem_append.mp hx with hx | hx
    · exact .inl hx
    · split at hx
      · exact .inr (cost_of_told (List.mem_singleton.mp hx).symm)
      · cases hx
  constructor
  case self => exact h.self
  case walk => exact h.walk
  case hop =>
    intro u r hr
    obtain ⟨c, hc, hnext⟩ := h.hop u r hr
    refine ⟨c, hc, fun hne => ⟨(hnext hne).1, fun x hx => ?_⟩⟩
    obtain ⟨⟨r', hr', hle⟩, hmsgs⟩ := hnext hne
    rcases hmem hx with hx | ⟨r'', hr'', rfl⟩
    · exact hmsgs x hx
    · obtain rfl := Option.some.inj (hr'.symm.trans hr'')
      exact hle
  case sent =>
    intro a b x hx
    rcases hmem hx with hx | ⟨r, hr, rfl⟩
    · exact h.sent a b x hx
    · exact ⟨h.walk a r hr, r, hr, Nat.le_refl _⟩
  case falling =>
    intro a b
    refine List.pairwise_append.mpr ⟨h.falling a b, ?_, fun m hm m' hm' x y hmx hmy => ?_⟩
    · split
      · exact List.pairwise_singleton _ _
      · exact .nil
    · split at hm'
      · obtain ⟨r, hr, rfl⟩ := cost_of_told ((List.mem_singleton.mp hm').symm.trans hmy)
        obtain ⟨-, r', hr', hle⟩ := h.sent a b x (hmx ▸ hm)
        obtain rfl := Option.some.inj (hr.symm.trans hr')
        exact hle
      · cases hm'

/-- The oldest message from `v` to `u` is taken. -/
def take (s : Vectors V) (v u : V) : Vectors V :=
  { s with channel := fun a b => if a = v ∧ b = u then (s.channel a b).tail else s.channel a b }

@[simp] theorem take_record (s : Vectors V) (v u : V) : (s.take v u).record = s.record := rfl

theorem take_sublist (s : Vectors V) (v u a b : V) :
    ((s.take v u).channel a b).Sublist (s.channel a b) := by
  simp only [take]
  split
  · exact List.tail_sublist _
  · exact List.Sublist.refl _

theorem Inv.take (h : s.Inv weight t) (v u : V) : (s.take v u).Inv weight t :=
  h.sublist rfl (take_sublist s v u)

/-- The record of a node after `v` offered it a route at the given cost. -/
def offered (v : V) (total : Nat) : Option (Record V) → Option (Record V)
  | none => some ⟨total, v⟩
  | some r => if (r.nextHop = v ∧ r.cost ≠ total) ∨ total < r.cost then some ⟨total, v⟩ else some r

private theorem offered_le (v : V) (total : Nat) (record : Option (Record V))
    (h : ∀ r, record = some r → r.nextHop = v → total ≤ r.cost) :
    Lowered record (offered v total record) ∧ ∃ r', offered v total record = some r' ∧ r'.cost ≤ total := by
  cases record with
  | none => exact ⟨.inr ⟨_, rfl, nofun⟩, _, rfl, Nat.le_refl _⟩
  | some r =>
    simp only [offered]
    split
    · rename_i hcond
      refine ⟨.inr ⟨_, rfl, fun r₀ hr₀ => ?_⟩, _, rfl, Nat.le_refl _⟩
      obtain rfl := Option.some.inj hr₀
      rcases hcond with ⟨hhop, hne⟩ | hlt
      · exact (h r rfl hhop).lt_of_ne hne.symm
      · exact hlt
    · rename_i hcond
      exact ⟨.refl _, r, rfl, Nat.not_lt.mp (not_or.mp hcond).2⟩

private theorem offered_cases (v : V) (total : Nat) (record : Option (Record V)) :
    offered v total record = record ∨ offered v total record = some ⟨total, v⟩ := by
  cases record with
  | none => exact .inr rfl
  | some r =>
    simp only [offered]
    split
    · exact .inr rfl
    · exact .inl rfl

/-- Learning from a message that is the oldest of its queue. -/
theorem Inv.offered (h : s.Inv weight t) (hirrefl : weight u u = none) {x c : Nat}
    {rest : List (Option Nat)} (hoffer : s.channel v u = some x :: rest) (hweight : weight u v = some c)
    (hu : u ≠ t) (hv : v ≠ t) :
    ((s.take v u).put u (offered v (c + x) (s.record u))).Inv weight t ∧
      Lowered (s.record u) (Vectors.offered v (c + x) (s.record u)) ∧
      ∃ r', Vectors.offered v (c + x) (s.record u) = some r' ∧ r'.cost ≤ c + x := by
  have hx : some x ∈ s.channel v u := by simp [hoffer]
  obtain ⟨hwalk, rv, hrv, hle⟩ := h.sent v u x hx
  have hvia (r : Record V) (hr : s.record u = some r) (hhop : r.nextHop = v) : c + x ≤ r.cost := by
    obtain ⟨c', hc', hnext⟩ := h.hop u r hr
    rw [hhop] at hc' hnext
    obtain rfl := Option.some.inj (hweight.symm.trans hc')
    exact (hnext hv).2 x hx
  obtain ⟨hlowered, hcheap⟩ := offered_le v (c + x) (s.record u) hvia
  refine ⟨?_, hlowered, hcheap⟩
  have htake := h.take v u
  have haccounts : Accounts weight t u (s.take v u) ⟨c + x, v⟩ := by
    refine ⟨.cons hweight hwalk, c, hweight, fun _ => ⟨⟨rv, hrv, by simpa using hle⟩, fun y hy => ?_⟩⟩
    have hrest : some y ∈ rest := by simpa [Vectors.take, hoffer] using hy
    have hfalls := h.falling v u
    rw [hoffer, List.pairwise_cons] at hfalls
    have := hfalls.1 _ hrest x y rfl rfl
    simpa using this
  rcases offered_cases v (c + x) (s.record u) with hkept | hnew
  · rw [hkept]
    exact (put_same (s.take v u) u).symm ▸ htake
  · rw [hnew] at hlowered ⊢
    exact htake.put hirrefl hu haccounts hlowered

/-- What `v` knows has been taken into account at `u`. -/
def Relaxed (weight : V → V → Option Nat) (t : V) (s : Vectors V) (v u : V) : Prop :=
  v ≠ t → u ≠ t → ∀ c r, weight u v = some c → s.record v = some r →
    ∃ r', s.record u = some r' ∧ r'.cost ≤ c + r.cost

/-- What `v` knows is on its way to `u`, as the last message, or has been taken into account there. -/
def Fresh (weight : V → V → Option Nat) (t : V) (s : Vectors V) (v u : V) : Prop :=
  match (s.channel v u).getLast? with
  | none => Relaxed weight t s v u
  | some m => m = s.told t v u

theorem Fresh.tell (s : Vectors V) {audience : V → Bool} (hu : audience u) :
    Fresh weight t (s.tell t v audience) v u := by
  simp [Fresh, Vectors.tell, hu, Vectors.told]

/-- What neither a record nor a queue of the two nodes notices leaves them up to date. -/
theorem Fresh.congr (h : Fresh weight t s v u) (hrecord : s'.record v = s.record v)
    (hchannel : s'.channel v u = s.channel v u) (hlower : Lowered (s.record u) (s'.record u)) :
    Fresh weight t s' v u := by
  unfold Fresh at h ⊢
  rw [hchannel]
  cases hlast : (s.channel v u).getLast? with
  | none =>
    rw [hlast] at h
    intro hv hu c r hc hr
    obtain ⟨r', hr', hle⟩ := h hv hu c r hc (hrecord ▸ hr)
    obtain ⟨r'', hr'', hle'⟩ := hlower.le hr'
    exact ⟨r'', hr'', by omega⟩
  | some m =>
    rw [hlast] at h
    rw [show m = s.told t v u from h, Vectors.told, Vectors.told, hrecord]

/-- Once the reader has dealt with the last message, it has taken into account what the sender knows:
a route hidden from it was made from its own. -/
theorem Fresh.take (h : Fresh weight t s v u) (hinv : s.Inv weight t)
    {m : Option Nat} {rest : List (Option Nat)}
    (hhead : s.channel v u = m :: rest) (hrecord : s'.record v = s.record v)
    (hchannel : s'.channel v u = rest) (hlower : Lowered (s.record u) (s'.record u))
    (hoffer : v ≠ t → u ≠ t → ∀ x c, m = some x → weight u v = some c →
      ∃ r', s'.record u = some r' ∧ r'.cost ≤ c + x) :
    Fresh weight t s' v u := by
  unfold Fresh at h ⊢
  rw [hchannel]
  cases rest with
  | cons m' rest =>
    rw [hhead, List.getLast?_cons_cons] at h
    cases hlast : (m' :: rest).getLast? with
    | none => simp at hlast
    | some last =>
      rw [hlast] at h
      rw [show last = s.told t v u from h, Vectors.told, Vectors.told, hrecord]
  | nil =>
    simp only [hhead, List.getLast?_singleton] at h
    simp only [List.getLast?_nil]
    intro hv hu c r hc hr
    rw [hrecord] at hr
    rw [Vectors.told, hr, Option.bind_some] at h
    split at h
    · -- hidden: the sender goes through the reader, whose record its own was made from
      rename_i hback
      obtain ⟨c', hc', hnext⟩ := hinv.hop v r hr
      rw [hback.1] at hc' hnext
      obtain ⟨⟨r', hr', hle⟩, -⟩ := hnext hu
      obtain ⟨r'', hr'', hle'⟩ := hlower.le hr'
      exact ⟨r'', hr'', by omega⟩
    · exact hoffer hv hu r.cost c h hc

section Bound

variable {members : Finset V} {limit : Nat}

def known (members : Finset V) (s : Vectors V) : Finset V := members.filter fun u => (s.record u).isSome

omit [DecidableEq V] in
private theorem mem_known {u : V} : u ∈ s.known members ↔ u ∈ members ∧ (s.record u).isSome := by simp [known]

/-- A cost goes up by at most one edge for every node that comes to know the target. -/
structure Bounded (members : Finset V) (limit : Nat) (s : Vectors V) : Prop where
  record : ∀ u r, s.record u = some r → r.cost ≤ limit * (s.known members).card
  sent : ∀ v u x, some x ∈ s.channel v u → x ≤ limit * (s.known members).card

omit [DecidableEq V] in
theorem Bounded.sublist (h : s.Bounded members limit) (hrecord : s'.record = s.record)
    (hsub : ∀ v u, (s'.channel v u).Sublist (s.channel v u)) : s'.Bounded members limit := by
  have hknown : s'.known members = s.known members := by rw [known, known, hrecord]
  constructor
  · rw [hknown, hrecord]
    exact h.record
  · rw [hknown]
    exact fun v u x hx => h.sent v u x ((hsub v u).subset hx)

theorem Bounded.take (h : s.Bounded members limit) (v u : V) : (s.take v u).Bounded members limit :=
  h.sublist rfl (take_sublist s v u)

theorem Bounded.tell (h : s.Bounded members limit) (v : V) (audience : V → Bool) :
    (s.tell t v audience).Bounded members limit := by
  refine ⟨h.record, fun a b x hx => ?_⟩
  rcases List.mem_append.mp hx with hx | hx
  · exact h.sent a b x hx
  · split at hx
    · obtain ⟨r, hr, rfl⟩ := cost_of_told (List.mem_singleton.mp hx).symm
      exact h.record a r hr
    · cases hx

theorem Bounded.put (h : s.Bounded members limit) (hu : u ∈ members)
    (hlower : Lowered (s.record u) (some r))
    (hnew : s.record u = none → r.cost ≤ limit + limit * (s.known members).card) :
    (s.put u (some r)).Bounded members limit := by
  have hknown : (s.put u (some r)).known members = insert u (s.known members) := by
    ext w
    rw [mem_known, Finset.mem_insert, mem_known]
    by_cases hw : w = u
    · simp [hw, hu]
    · simp [hw, put_of_ne s (some r) hw]
  have hmono : limit * (s.known members).card ≤ limit * ((s.put u (some r)).known members).card :=
    Nat.mul_le_mul_left limit (hknown ▸ Finset.card_le_card (Finset.subset_insert u (s.known members)))
  refine ⟨fun w r₀ hw => ?_, fun v w x hx => (h.sent v w x hx).trans hmono⟩
  by_cases hwu : w = u
  · subst hwu
    rw [put_self] at hw
    obtain rfl := Option.some.inj hw
    cases hold : s.record w with
    | some old =>
      obtain ⟨r', hr', hle⟩ := hlower.le hold
      obtain rfl := Option.some.inj hr'
      exact hle.trans ((h.record w old hold).trans hmono)
    | none =>
      have hfresh : w ∉ s.known members := by simp [mem_known, hold]
      rw [hknown, Finset.card_insert_of_notMem hfresh, Nat.mul_succ, Nat.add_comm]
      exact hnew hold
  · rw [put_of_ne s _ hwu] at hw
    exact (h.record w r₀ hw).trans hmono

theorem Bounded.offered (h : s.Bounded members limit) {x c : Nat} (hoffer : some x ∈ s.channel v u)
    (hc : c ≤ limit) (hu : u ∈ members)
    (hlower : Lowered (s.record u) (Vectors.offered v (c + x) (s.record u))) :
    ((s.take v u).put u (Vectors.offered v (c + x) (s.record u))).Bounded members limit := by
  have htake := h.take v u
  rcases offered_cases v (c + x) (s.record u) with hkept | hnew
  · rw [hkept]
    exact (put_same (s.take v u) u).symm ▸ htake
  · rw [hnew] at hlower ⊢
    refine htake.put hu hlower fun _ => ?_
    exact Nat.add_le_add hc (h.sent v u x hoffer)

omit [DecidableEq V] in
/-- The target itself has no record, so there is room for one more edge. -/
theorem Inv.known_card_lt (h : s.Inv weight t) (ht : t ∈ members) : (s.known members).card < members.card :=
  Finset.card_lt_card ⟨Finset.filter_subset _ _, fun hsub => by simpa [h.self] using (mem_known.mp (hsub ht)).2⟩

end Bound

section Worth

variable {members : Finset V} {top : Nat} {record : Option (Record V)}

def price (top : Nat) (record : Option (Record V)) : Nat := (record.map Record.cost).getD top

/-- The sum of the costs of all members, where having no record costs most. -/
def worth (members : Finset V) (top : Nat) (s : Vectors V) : Nat := ∑ u ∈ members, price top (s.record u)

end Worth

end Vectors

end Comp556
