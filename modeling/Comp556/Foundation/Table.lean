import Mathlib.Data.List.Nodup
import Mathlib.Data.List.Perm.Basic

/-!
# Hash tables with an unspecified layout

A hash table is the list of its entries in the order a traversal meets them. Updating a key keeps
that order; a new key may land anywhere, since an insertion can rehash the whole table, and the
`Layout` says where. Lookups do not see the layout, and neither does a loop whose body only
touches the key it is visiting.
-/

namespace Comp556

/-- Where a table puts a new entry: any rearrangement of the entries. -/
structure Layout (K : Type) where
  place : {V : Type} → List (K × V) → List (K × V)
  place_perm : ∀ {V : Type} (entries : List (K × V)), (place entries).Perm entries

/-- The layout that puts a new entry first. -/
def Layout.front (K : Type) : Layout K := ⟨fun entries => entries, fun _ => .rfl⟩

/-- Entries in traversal order, no key twice. -/
structure Table (K V : Type) where
  entries : List (K × V)
  nodup : (entries.map Prod.fst).Nodup

namespace Table

variable {K V W : Type}

def empty : Table K V := ⟨[], List.nodup_nil⟩

def keys (t : Table K V) : List K := t.entries.map Prod.fst

def size (t : Table K V) : Nat := t.entries.length

theorem nodup_keys (t : Table K V) : t.keys.Nodup := t.nodup

theorem length_keys (t : Table K V) : t.keys.length = t.size := List.length_map ..

def filter (t : Table K V) (p : K → V → Bool) : Table K V :=
  ⟨t.entries.filter fun e => p e.1 e.2, t.nodup.sublist (List.filter_sublist.map _)⟩

def mapValues (t : Table K V) (f : V → W) : Table K W :=
  ⟨t.entries.map fun e => (e.1, f e.2), by simpa [List.map_map, Function.comp_def] using t.nodup⟩

variable [DecidableEq K]

def get? (t : Table K V) (k : K) : Option V := t.entries.lookup k

def getD (t : Table K V) (k : K) (d : V) : V := (t.get? k).getD d

def contains (t : Table K V) (k : K) : Bool := (t.get? k).isSome

def erase (t : Table K V) (k : K) : Table K V := t.filter fun j _ => j ≠ k

theorem mem_entries_iff (t : Table K V) (k : K) (v : V) :
    (k, v) ∈ t.entries ↔ t.get? k = some v := by
  obtain ⟨l, hl⟩ := t
  simp only [get?]
  induction l with
  | nil => simp
  | cons e l ih =>
    have hnot := (List.nodup_cons.mp hl).1
    have htail := ih (List.nodup_cons.mp hl).2
    rw [List.mem_cons, List.lookup_cons]
    by_cases hk : k = e.1
    · subst hk
      have hv : (e.1, v) ∉ l := fun hm => hnot (List.mem_map.mpr ⟨_, hm, rfl⟩)
      simp only [hv, or_false, beq_self_eq_true, Option.some.injEq]
      exact ⟨fun h => (congrArg Prod.snd h).symm, fun h => by rw [← h]⟩
    · have hne : (k, v) ≠ e := fun h => hk (congrArg Prod.fst h)
      simp only [hne, false_or, beq_false_of_ne hk, htail]

theorem mem_keys_iff (t : Table K V) (k : K) : k ∈ t.keys ↔ (t.get? k).isSome := by
  rw [keys, List.mem_map, Option.isSome_iff_exists]
  constructor
  · rintro ⟨e, he, rfl⟩
    exact ⟨e.2, (t.mem_entries_iff _ _).mp he⟩
  · rintro ⟨v, hv⟩
    exact ⟨(k, v), (t.mem_entries_iff _ _).mpr hv, rfl⟩

private theorem not_mem_keys_iff (t : Table K V) (k : K) : k ∉ t.keys ↔ t.get? k = none := by
  rw [mem_keys_iff, Option.not_isSome_iff_eq_none]

/-- What a traversal collects at one key. -/
theorem filterMap_key {A : Type} (t : Table K V) (k : K) (f : V → A) :
    t.entries.filterMap (fun e => if e.1 = k then some (f e.2) else none) = ((t.get? k).map f).toList := by
  obtain ⟨l, hl⟩ := t
  simp only [get?]
  induction l with
  | nil => rfl
  | cons e l ih =>
    have htail := ih (List.nodup_cons.mp hl).2
    rw [List.filterMap_cons, htail, List.lookup_cons]
    by_cases hk : e.1 = k
    · have hnone : l.lookup k = none := by
        refine List.lookup_eq_none_iff.mpr fun e' he' => bne_iff_ne.mpr ?_
        rintro rfl
        exact (List.nodup_cons.mp hl).1 (List.mem_map.mpr ⟨e', he', hk.symm⟩)
      simp [hk, hnone]
    · simp [hk, beq_false_of_ne (Ne.symm hk)]

private theorem placed_nodup (layout : Layout K) (t : Table K V) (k : K) (v : V)
    (h : ¬ t.contains k) : ((layout.place ((k, v) :: t.entries)).map Prod.fst).Nodup := by
  have hk : k ∉ t.keys := by simpa [not_mem_keys_iff, contains] using h
  exact ((layout.place_perm _).map _).nodup_iff.mpr (List.nodup_cons.mpr ⟨hk, t.nodup⟩)

private theorem replaced_nodup (t : Table K V) (k : K) (v : V) :
    ((t.entries.map fun e => if e.1 = k then (k, v) else e).map Prod.fst).Nodup := by
  have hkeys : (t.entries.map fun e => if e.1 = k then (k, v) else e).map Prod.fst = t.keys := by
    rw [keys, List.map_map]
    apply List.map_congr_left
    intro e _
    by_cases he : e.1 = k <;> simp [he]
  rw [hkeys]
  exact t.nodup

/-- `t[k] = v`. An entry that exists is updated in place. -/
def insert (layout : Layout K) (t : Table K V) (k : K) (v : V) : Table K V :=
  if h : t.contains k then ⟨t.entries.map fun e => if e.1 = k then (k, v) else e, t.replaced_nodup k v⟩
  else ⟨layout.place ((k, v) :: t.entries), placed_nodup layout t k v h⟩

/-- Reading `t[k]`: a missing key is entered with the default value. -/
def index (layout : Layout K) (t : Table K V) (k : K) (d : V) : V × Table K V :=
  match t.get? k with
  | some v => (v, t)
  | none => (d, t.insert layout k d)

/-- `t[k] = f(t[k])`, where a missing key is entered with the default value first. -/
def modify (layout : Layout K) (t : Table K V) (k : K) (d : V) (f : V → V) : Table K V :=
  t.insert layout k (f (t.getD k d))

theorem get?_eq_of_mem_iff {t : Table K V} {k : K} {o : Option V}
    (h : ∀ v, (k, v) ∈ t.entries ↔ o = some v) : t.get? k = o := by
  cases o with
  | none =>
    rw [← not_mem_keys_iff, keys, List.mem_map]
    rintro ⟨e, he, rfl⟩
    simpa using (h e.2).mp he
  | some v => exact (t.mem_entries_iff k v).mp ((h v).mpr rfl)

@[simp] theorem get?_empty (k : K) : (empty : Table K V).get? k = none := rfl

theorem get?_insert (layout : Layout K) (t : Table K V) (k j : K) (v : V) :
    (t.insert layout k v).get? j = if j = k then some v else t.get? j := by
  apply get?_eq_of_mem_iff
  intro w
  unfold insert
  split
  · rename_i hc
    obtain ⟨old, hold⟩ := Option.isSome_iff_exists.mp hc
    have hmem := (t.mem_entries_iff k old).mpr hold
    simp only [List.mem_map]
    by_cases hj : j = k
    · subst hj
      simp only [if_true, Option.some.injEq]
      constructor
      · rintro ⟨e, _, he⟩
        by_cases hej : e.1 = j
        · rw [if_pos hej] at he
          exact congrArg Prod.snd he
        · rw [if_neg hej] at he
          exact absurd (congrArg Prod.fst he) hej
      · intro heq
        subst heq
        exact ⟨_, hmem, by simp⟩
    · rw [if_neg hj, ← mem_entries_iff]
      constructor
      · rintro ⟨e, he, hew⟩
        by_cases hek : e.1 = k
        · rw [if_pos hek] at hew
          exact absurd (congrArg Prod.fst hew).symm hj
        · rw [if_neg hek] at hew
          exact hew ▸ he
      · exact fun hm => ⟨_, hm, by simp [hj]⟩
  · rename_i hc
    have hnone : t.get? k = none := by simpa [contains] using hc
    rw [(layout.place_perm _).mem_iff, List.mem_cons, mem_entries_iff]
    by_cases hj : j = k
    · subst hj
      simp [hnone, eq_comm]
    · simp [hj]

@[simp] theorem get?_insert_self (layout : Layout K) (t : Table K V) (k : K) (v : V) :
    (t.insert layout k v).get? k = some v := by
  rw [get?_insert, if_pos rfl]

theorem get?_insert_of_ne (layout : Layout K) (t : Table K V) {k j : K} (v : V) (h : j ≠ k) :
    (t.insert layout k v).get? j = t.get? j := by
  rw [get?_insert, if_neg h]

theorem get?_filter (t : Table K V) (p : K → V → Bool) (k : K) :
    (t.filter p).get? k = (t.get? k).filter (p k) := by
  apply get?_eq_of_mem_iff
  intro v
  rw [filter, List.mem_filter, mem_entries_iff, Option.filter_eq_some_iff]

theorem get?_erase (t : Table K V) (k j : K) :
    (t.erase k).get? j = if j = k then none else t.get? j := by
  rw [erase, get?_filter]
  by_cases h : j = k <;> cases t.get? j <;> simp [h]

theorem get?_mapValues (t : Table K V) (f : V → W) (k : K) :
    (t.mapValues f).get? k = (t.get? k).map f := by
  apply get?_eq_of_mem_iff
  intro w
  simp only [mapValues, List.mem_map, Prod.mk.injEq, Option.map_eq_some_iff, ← mem_entries_iff]
  constructor
  · rintro ⟨⟨j, v⟩, he, rfl, rfl⟩
    exact ⟨v, he, rfl⟩
  · rintro ⟨v, he, rfl⟩
    exact ⟨(k, v), he, rfl, rfl⟩

theorem getD_eq (t : Table K V) (k : K) (d : V) : t.getD k d = (t.get? k).getD d := rfl

theorem getD_of_get? {t : Table K V} {k : K} {v : V} (d : V) (h : t.get? k = some v) :
    t.getD k d = v := by
  rw [getD, h, Option.getD_some]

theorem getD_insert (layout : Layout K) (t : Table K V) (k j : K) (v d : V) :
    (t.insert layout k v).getD j d = if j = k then v else t.getD j d := by
  rw [getD, get?_insert]
  by_cases h : j = k <;> simp [h, getD]

theorem get?_modify (layout : Layout K) (t : Table K V) (k j : K) (d : V) (f : V → V) :
    (t.modify layout k d f).get? j = if j = k then some (f (t.getD k d)) else t.get? j :=
  get?_insert layout t k j _

theorem index_fst (layout : Layout K) (t : Table K V) (k : K) (d : V) :
    (t.index layout k d).1 = t.getD k d := by
  unfold index getD
  cases t.get? k <;> rfl

theorem index_of_get? {layout : Layout K} {t : Table K V} {k : K} {v : V} (d : V)
    (h : t.get? k = some v) : t.index layout k d = (v, t) := by
  rw [index, h]

theorem getD_index_snd (layout : Layout K) (t : Table K V) (k j : K) (d : V) :
    (t.index layout k d).2.getD j d = t.getD j d := by
  unfold index
  cases h : t.get? k with
  | some v => rfl
  | none =>
    simp only [getD_insert]
    by_cases hj : j = k <;> simp [hj, getD, h]

theorem contains_eq (t : Table K V) (k : K) : t.contains k = (t.get? k).isSome := rfl

theorem insert_entries_of_none (layout : Layout K) {t : Table K V} {k : K} (v : V)
    (h : t.get? k = none) : (t.insert layout k v).entries.Perm ((k, v) :: t.entries) := by
  rw [insert, dif_neg (by simp [contains, h])]
  exact layout.place_perm _

private theorem get?_foldl_insert (layout : Layout K) (l : List (K × V)) (t : Table K V) (k : K) :
    (l.foldl (fun t e => t.insert layout e.1 e.2) t).get? k = (l.reverse.lookup k).or (t.get? k) := by
  induction l generalizing t with
  | nil => rfl
  | cons e l ih =>
    rw [List.foldl_cons, ih, get?_insert, List.reverse_cons, List.lookup_append, List.lookup_cons,
      List.lookup_nil]
    by_cases hk : k = e.1
    · simp [hk]
    · rw [if_neg hk, beq_false_of_ne hk]
      simp

/-- Without repeated keys the pairs entered are the pairs found. -/
theorem get?_foldl_insert_nodup (layout : Layout K) {l : List (K × V)}
    (h : (l.map Prod.fst).Nodup) (k : K) :
    (l.foldl (fun t e => t.insert layout e.1 e.2) empty).get? k = l.lookup k := by
  have hrev : (l.reverse.map Prod.fst).Nodup := by simpa using h
  have hsame : (⟨l.reverse, hrev⟩ : Table K V).get? k = (⟨l, h⟩ : Table K V).get? k :=
    get?_eq_of_mem_iff fun v => by simp [← mem_entries_iff]
  rw [get?_foldl_insert, get?_empty, Option.or_none]
  exact hsame

end Table

section Loop

variable {K V S A : Type} [DecidableEq K]

/-- What visiting the entry `(k, v)` does to a state: it keeps the invariant, it turns what is
observed at `k` into `f k v`, and it leaves what is observed elsewhere alone. -/
def VisitsOnly (observe : S → K → A) (f : K → V → A) (inv : S → Prop) (k : K) (v : V) (s s' : S) :
    Prop :=
  inv s' ∧ observe s' k = f k v ∧ ∀ j, j ≠ k → observe s' j = observe s j

/-- A loop over a table whose turns only touch what is observed at the key they visit acts on every key
separately, in whatever order the entries come. -/
theorem foldlM_pointwise (body : S → K × V → Option S) (observe : S → K → A) (f : K → V → A)
    (inv : S → Prop) (t : Table K V) (s₀ : S) (hs₀ : inv s₀)
    (hbody : ∀ s k v, t.get? k = some v → inv s → observe s k = observe s₀ k →
      ∃ s', body s (k, v) = some s' ∧ VisitsOnly observe f inv k v s s') :
    ∃ s', t.entries.foldlM body s₀ = some s' ∧ inv s' ∧
      ∀ k, observe s' k = ((t.get? k).map (f k)).getD (observe s₀ k) := by
  have hloop : ∀ (l : List (K × V)) (s : S), (l.map Prod.fst).Nodup → inv s →
      (∀ e ∈ l, t.get? e.1 = some e.2) → (∀ e ∈ l, observe s e.1 = observe s₀ e.1) →
      ∃ s', l.foldlM body s = some s' ∧ inv s' ∧ (∀ e ∈ l, observe s' e.1 = f e.1 e.2) ∧
        ∀ k, k ∉ l.map Prod.fst → observe s' k = observe s k := by
    intro l
    induction l with
    | nil => exact fun s _ hs _ _ => ⟨s, rfl, hs, by simp, fun _ _ => rfl⟩
    | cons e l ih =>
      intro s hnd hs hget hsame
      obtain ⟨hnot, hnd⟩ := List.nodup_cons.mp hnd
      obtain ⟨s₁, hb, hs₁, hself, hother⟩ :=
        hbody s e.1 e.2 (hget e List.mem_cons_self) hs (hsame e List.mem_cons_self)
      have hne : ∀ e' ∈ l, e'.1 ≠ e.1 := fun e' he' heq => hnot (heq ▸ List.mem_map_of_mem he')
      obtain ⟨s₂, hf, hs₂, hin, hout⟩ := ih s₁ hnd hs₁ (fun e' he' => hget e' (List.mem_cons_of_mem _ he'))
        (fun e' he' => (hother _ (hne e' he')).trans (hsame e' (List.mem_cons_of_mem _ he')))
      refine ⟨s₂, by rw [List.foldlM_cons, hb]; exact hf, hs₂, ?_, ?_⟩
      · intro e' he'
        rcases List.mem_cons.mp he' with rfl | he'
        · rw [hout _ hnot, hself]
        · exact hin e' he'
      · intro k hk
        simp only [List.map_cons, List.mem_cons, not_or] at hk
        rw [hout k hk.2, hother k hk.1]
  obtain ⟨s', hrun, hinv, hin, hout⟩ := hloop t.entries s₀ t.nodup hs₀
    (fun e he => (t.mem_entries_iff _ _).mp he) (fun _ _ => rfl)
  refine ⟨s', hrun, hinv, fun k => ?_⟩
  cases hk : t.get? k with
  | none => exact hout k ((t.not_mem_keys_iff k).mpr hk)
  | some v => exact hin (k, v) ((t.mem_entries_iff k v).mpr hk)

/-- The pointwise rule for a loop that cannot fail. -/
theorem foldl_pointwise (body : S → K × V → S) (observe : S → K → A) (f : K → V → A)
    (inv : S → Prop) (t : Table K V) (s₀ : S) (hs₀ : inv s₀)
    (hbody : ∀ s k v, t.get? k = some v → inv s → observe s k = observe s₀ k →
      VisitsOnly observe f inv k v s (body s (k, v))) :
    inv (t.entries.foldl body s₀) ∧
      ∀ k, observe (t.entries.foldl body s₀) k = ((t.get? k).map (f k)).getD (observe s₀ k) := by
  obtain ⟨s', hrun, hinv, hobs⟩ := foldlM_pointwise (fun s e => some (body s e)) observe f inv t s₀ hs₀
    (fun s k v hk hs hsame => ⟨_, rfl, hbody s k v hk hs hsame⟩)
  have heq : t.entries.foldl body s₀ = s' := by
    have hpure : t.entries.foldlM (fun s e => some (body s e)) s₀ = some (t.entries.foldl body s₀) :=
      List.foldlM_pure
    exact Option.some.inj (hpure.symm.trans hrun)
  exact heq ▸ ⟨hinv, hobs⟩

end Loop

end Comp556
