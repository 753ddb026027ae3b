import Mathlib.Algebra.BigOperators.Group.List.Basic
import Mathlib.Algebra.Order.BigOperators.Group.Finset
import Mathlib.Algebra.Order.BigOperators.Group.List
import Mathlib.Data.List.Nodup
import Mathlib.Tactic.Abel

/-! Insertion-ordered dictionaries: a list of distinct keys with a value for each of them. Storing
under a key that is present keeps its place, and a new key goes to the end. The lemmas say how the
operations change lookups and how a store changes a sum over the values. -/

namespace AssetStore.Lib

/-- A dictionary that remembers the order in which its keys were inserted. -/
structure Dict (K V : Type) where
  keys : List K
  get : K → Option V
  nodup : keys.Nodup
  mem_keys : ∀ k, k ∈ keys ↔ (get k).isSome

namespace Dict

variable {K V : Type}

@[ext] theorem ext {d e : Dict K V} (hk : d.keys = e.keys) (hg : d.get = e.get) : d = e := by
  cases d; cases e; simp_all

/-- The dictionary without keys. -/
def empty : Dict K V where
  keys := []
  get _ := none
  nodup := List.nodup_nil
  mem_keys := by simp

instance : Inhabited (Dict K V) := ⟨empty⟩

/-- The values, in the order of their keys. -/
def values (d : Dict K V) : List V := d.keys.filterMap d.get

@[simp] theorem get_empty (k : K) : (empty : Dict K V).get k = none := rfl

@[simp] theorem values_empty : (empty : Dict K V).values = [] := rfl

theorem mem_values {d : Dict K V} {v : V} : v ∈ d.values ↔ ∃ k, d.get k = some v := by
  simp only [values, List.mem_filterMap]
  refine ⟨fun ⟨k, _, h⟩ => ⟨k, h⟩, fun ⟨k, h⟩ => ⟨k, ?_, h⟩⟩
  rw [d.mem_keys, h]
  rfl

/-- A dictionary whose values are all filed under their own key has no two values with one key. -/
theorem values_nodup_map {d : Dict K V} {key : V → K} (h : ∀ k v, d.get k = some v → key v = k) :
    (d.values.map key).Nodup := by
  have hkeys : d.values.map key = d.keys := by
    unfold values
    have hall : ∀ k ∈ d.keys, ∃ v, d.get k = some v := fun k hk =>
      Option.isSome_iff_exists.mp ((d.mem_keys k).mp hk)
    revert hall
    generalize d.keys = ks
    intro hall
    induction ks with
    | nil => rfl
    | cons k ks ih =>
      obtain ⟨v, hv⟩ := hall k (by simp)
      simp only [List.filterMap_cons, hv, List.map_cons, h k v hv]
      rw [ih fun k' hk' => hall k' (by simp [hk'])]
  rw [hkeys]
  exact d.nodup

section Sum

variable {M : Type} [AddCommGroup M]

/-- The sum of `f` over the values. -/
def sum (d : Dict K V) (f : V → M) : M := (d.values.map f).sum

@[simp] theorem sum_empty (f : V → M) : (empty : Dict K V).sum f = 0 := rfl

/-- What the value under `k`, if there is one, adds to the sum of `f`. -/
def term (d : Dict K V) (f : V → M) (k : K) : M := (d.get k).elim 0 f

@[simp] theorem term_of_get {d : Dict K V} {f : V → M} {k : K} {v : V} (h : d.get k = some v) :
    d.term f k = f v := by
  simp [term, h]

@[simp] theorem term_of_not_get {d : Dict K V} {f : V → M} {k : K} (h : d.get k = none) :
    d.term f k = 0 := by
  simp [term, h]

theorem sum_eq_keys (d : Dict K V) (f : V → M) : d.sum f = (d.keys.map (d.term f)).sum := by
  unfold sum values
  generalize d.keys = ks
  induction ks with
  | nil => rfl
  | cons k ks ih =>
    cases h : d.get k with
    | none => simp [h, ih, term]
    | some v => simp [h, ih, term]

theorem sum_keys_update [DecidableEq K] {g g' : K → M} {k : K} : ∀ {ks : List K}, ks.Nodup →
    (∀ k', k' ≠ k → g' k' = g k') → k ∈ ks →
    (ks.map g').sum = (ks.map g).sum - g k + g' k
  | [], _, _, hmem => absurd hmem (by simp)
  | a :: ks, hn, hg, hmem => by
    obtain ⟨ha, hn⟩ := List.nodup_cons.mp hn
    by_cases e : a = k
    · subst e
      have hrest : ks.map g' = ks.map g :=
        List.map_congr_left fun b hb => hg b fun hba => ha (hba ▸ hb)
      simp only [List.map_cons, List.sum_cons, hrest]
      abel
    · have hk : k ∈ ks := by simpa [Ne.symm e] using hmem
      simp only [List.map_cons, List.sum_cons, hg a e, sum_keys_update hn hg hk]
      abel

end Sum

/-- Keeps the values that satisfy `p`. -/
def filter (d : Dict K V) (p : V → Bool) : Dict K V where
  keys := d.keys.filter fun k => (d.get k).any p
  get k := (d.get k).filter p
  nodup := d.nodup.filter _
  mem_keys k := by
    have hk := d.mem_keys k
    cases h : d.get k with
    | none => simp [h]
    | some v =>
      have hmem : k ∈ d.keys := by rw [hk, h]; rfl
      simp [h, hmem, Option.isSome_filter]

@[simp] theorem get_filter (d : Dict K V) (p : V → Bool) (k : K) :
    (d.filter p).get k = (d.get k).filter p := rfl

theorem length_keys (d : Dict K V) : d.keys.length = d.values.length := by
  have hall : ∀ k ∈ d.keys, ∃ v, d.get k = some v := fun k hk =>
    Option.isSome_iff_exists.mp ((d.mem_keys k).mp hk)
  unfold values
  revert hall
  generalize d.keys = ks
  intro hall
  induction ks with
  | nil => rfl
  | cons k ks ih =>
    obtain ⟨v, hv⟩ := hall k (by simp)
    simp [hv, ih fun k' hk' => hall k' (by simp [hk'])]

theorem values_filter (d : Dict K V) (p : V → Bool) : (d.filter p).values = d.values.filter p := by
  change (d.keys.filter fun k => (d.get k).any p).filterMap (fun k => (d.get k).filter p) =
    (d.keys.filterMap d.get).filter p
  generalize d.keys = ks
  induction ks with
  | nil => rfl
  | cons k ks ih =>
    cases h : d.get k with
    | none => simpa [h] using ih
    | some v =>
      cases hp : p v with
      | true =>
        have hkept : (d.get k).filter p = some v := by simp [h, hp, Option.filter]
        rw [List.filter_cons_of_pos (by simp [h, hp]),
          List.filterMap_cons_some (f := fun k => (d.get k).filter p) hkept, ih,
          List.filterMap_cons_some h, List.filter_cons_of_pos hp]
      | false => simpa [h, hp] using ih

theorem length_keys_filter (d : Dict K V) (p : V → Bool) :
    (d.filter p).keys.length = (d.values.filter p).length := by
  rw [length_keys, values_filter]

/-- Applies `f` to every value. -/
def map {W : Type} (d : Dict K V) (f : V → W) : Dict K W where
  keys := d.keys
  get k := (d.get k).map f
  nodup := d.nodup
  mem_keys k := by simp [d.mem_keys]

@[simp] theorem get_map {W : Type} (d : Dict K V) (f : V → W) (k : K) :
    (d.map f).get k = (d.get k).map f := rfl

theorem values_map {W : Type} (d : Dict K V) (f : V → W) : (d.map f).values = d.values.map f := by
  simp only [values, map, List.map_filterMap]

theorem sum_map {W M : Type} [AddCommGroup M] (d : Dict K V) (f : V → W) (g : W → M) :
    (d.map f).sum g = d.sum fun v => g (f v) := by
  simp [sum, values_map, Function.comp_def]

/-- The sum of a share that only some values have. -/
theorem sum_ite {M : Type} [AddCommGroup M] (d : Dict K V) (p : V → Prop) [DecidablePred p]
    (f : V → M) :
    (d.sum fun v => if p v then f v else 0) = ((d.values.filter fun v => p v).map f).sum := by
  unfold sum
  generalize d.values = vs
  induction vs with
  | nil => rfl
  | cons v vs ih => by_cases h : p v <;> simp [h, ih]

theorem sum_add {M : Type} [AddCommGroup M] (d : Dict K V) (f g : V → M) :
    (d.sum fun v => f v + g v) = d.sum f + d.sum g := by
  simp [sum, List.sum_map_add]

theorem sum_congr {M : Type} [AddCommGroup M] {d : Dict K V} {f g : V → M}
    (h : ∀ k v, d.get k = some v → f v = g v) : d.sum f = d.sum g := by
  unfold sum
  congr 1
  refine List.map_congr_left fun v hv => ?_
  obtain ⟨k, hk⟩ := mem_values.mp hv
  exact h k v hk

theorem sum_nonneg {d : Dict K V} {f : V → Int} (h : ∀ k v, d.get k = some v → 0 ≤ f v) :
    0 ≤ d.sum f := by
  refine List.sum_nonneg fun x hx => ?_
  obtain ⟨v, hv, rfl⟩ := List.mem_map.mp hx
  obtain ⟨k, hk⟩ := mem_values.mp hv
  exact h k v hk

variable [DecidableEq K]

/-- Stores `v` under `k`. -/
def set (d : Dict K V) (k : K) (v : V) : Dict K V where
  keys := if k ∈ d.keys then d.keys else d.keys ++ [k]
  get := Function.update d.get k (some v)
  nodup := by
    split
    · exact d.nodup
    · rename_i h
      rw [List.nodup_append]
      exact ⟨d.nodup, List.nodup_singleton k, fun a ha b hb hab => h (by simp_all)⟩
  mem_keys k' := by
    have hk := d.mem_keys k'
    by_cases e : k' = k
    · subst e
      split <;> simp_all
    · rw [Function.update_of_ne e, ← hk]
      split <;> simp [e]

/-- Drops the key `k`. -/
def erase (d : Dict K V) (k : K) : Dict K V where
  keys := d.keys.erase k
  get := Function.update d.get k none
  nodup := d.nodup.erase k
  mem_keys k' := by
    by_cases e : k' = k
    · subst e
      simp [d.nodup.mem_erase_iff]
    · rw [Function.update_of_ne e, ← d.mem_keys k', d.nodup.mem_erase_iff]
      simp [e]

theorem get_set (d : Dict K V) (k k' : K) (v : V) :
    (d.set k v).get k' = if k' = k then some v else d.get k' :=
  Function.update_apply d.get k (some v) k'

@[simp] theorem get_set_self (d : Dict K V) (k : K) (v : V) : (d.set k v).get k = some v := by
  simp [get_set]

theorem get_set_ne (d : Dict K V) {k k' : K} (v : V) (h : k' ≠ k) :
    (d.set k v).get k' = d.get k' := by
  simp [get_set, h]

theorem get_erase (d : Dict K V) (k k' : K) :
    (d.erase k).get k' = if k' = k then none else d.get k' :=
  Function.update_apply d.get k none k'

@[simp] theorem get_erase_self (d : Dict K V) (k : K) : (d.erase k).get k = none := by
  simp [get_erase]

theorem get_erase_ne (d : Dict K V) {k k' : K} (h : k' ≠ k) : (d.erase k).get k' = d.get k' := by
  simp [get_erase, h]

theorem keys_set_of_mem {d : Dict K V} {k : K} {v w : V} (h : d.get k = some w) :
    (d.set k v).keys = d.keys := by
  have : k ∈ d.keys := by rw [d.mem_keys, h]; rfl
  simp [set, this]

theorem keys_set_of_new {d : Dict K V} {k : K} {v : V} (h : d.get k = none) :
    (d.set k v).keys = d.keys ++ [k] := by
  have : k ∉ d.keys := by rw [d.mem_keys, h]; simp
  simp [set, this]

/-- A store replaces the old value's share of the sum by the new value's. -/
theorem sum_set {M : Type} [AddCommGroup M] (d : Dict K V) (f : V → M) (k : K) (v : V) :
    (d.set k v).sum f = d.sum f - d.term f k + f v := by
  have hother : ∀ k', k' ≠ k → (d.set k v).term f k' = d.term f k' := fun k' hk' => by
    simp [term, get_set_ne d v hk']
  have hself : (d.set k v).term f k = f v := term_of_get (get_set_self d k v)
  rw [sum_eq_keys, sum_eq_keys]
  cases h : d.get k with
  | some w =>
    have hmem : k ∈ d.keys := by rw [d.mem_keys, h]; rfl
    rw [keys_set_of_mem h, sum_keys_update d.nodup hother hmem, hself]
  | none =>
    have hmem : k ∉ d.keys := by rw [d.mem_keys, h]; simp
    have hkeys : d.keys.map ((d.set k v).term f) = d.keys.map (d.term f) :=
      List.map_congr_left fun a ha => hother a fun e => hmem (e ▸ ha)
    rw [keys_set_of_new h, term_of_not_get h, List.map_append, List.sum_append, hkeys]
    simp

/-- Dropping a key takes its value's share out of the sum. -/
theorem sum_erase {M : Type} [AddCommGroup M] (d : Dict K V) (f : V → M) (k : K) :
    (d.erase k).sum f = d.sum f - d.term f k := by
  have hother : ∀ ks : List K, k ∉ ks → ks.map ((d.erase k).term f) = ks.map (d.term f) :=
    fun ks hks => List.map_congr_left fun a ha => by
      simp [term, get_erase_ne d fun e : a = k => hks (e ▸ ha)]
  rw [sum_eq_keys, sum_eq_keys]
  by_cases hmem : k ∈ d.keys
  · have hsplit : (d.keys.map (d.term f)).sum = d.term f k +
        ((d.keys.erase k).map (d.term f)).sum := by
      rw [← List.sum_cons, ← List.map_cons]
      exact ((List.perm_cons_erase hmem).map _).sum_eq
    change ((d.keys.erase k).map ((d.erase k).term f)).sum = _
    rw [hother _ (d.nodup.not_mem_erase), hsplit]
    abel
  · have hnone : d.get k = none := by simpa [d.mem_keys] using hmem
    change ((d.keys.erase k).map ((d.erase k).term f)).sum = _
    rw [List.erase_of_not_mem hmem, hother _ hmem, term_of_not_get hnone, sub_zero]

/-- A store adds the new value's share to the sum of the others. -/
theorem sum_set_erase {M : Type} [AddCommGroup M] (d : Dict K V) (f : V → M) (k : K) (v : V) :
    (d.set k v).sum f = (d.erase k).sum f + f v := by
  have : ((d.erase k).set k v).sum f = (d.erase k).sum f + f v := by
    rw [sum_set, term_of_not_get (get_erase_self d k), sub_zero]
  rw [← this, sum_set, sum_set, term_of_not_get (get_erase_self d k), sum_erase, sub_zero]

theorem sum_of_not_get {M : Type} [AddCommGroup M] {d : Dict K V} {f : V → M} {k : K}
    (h : d.get k = none) : (d.erase k).sum f = d.sum f := by
  rw [sum_erase, term_of_not_get h, sub_zero]

theorem le_sum {d : Dict K V} {f : V → Int} {k : K} {v : V} (hk : d.get k = some v)
    (h : ∀ k v, d.get k = some v → 0 ≤ f v) : f v ≤ d.sum f := by
  have hrest : 0 ≤ (d.erase k).sum f := sum_nonneg fun k' v' hk' => by
    by_cases e : k' = k
    · subst e
      simp at hk'
    · exact h k' v' (by rwa [get_erase_ne d e] at hk')
  rw [sum_erase, term_of_get hk] at hrest
  omega

/-- Storing again under the same key replaces what was stored. -/
theorem set_set (d : Dict K V) (k : K) (v w : V) : (d.set k v).set k w = d.set k w := by
  ext1
  · simp only [set]
    split
    · simp_all
    · simp_all
  · funext k'
    by_cases h : k' = k <;> simp [get_set, h]

/-- Storing what is stored already changes nothing. -/
theorem set_of_get {d : Dict K V} {k : K} {v : V} (h : d.get k = some v) : d.set k v = d := by
  ext1
  · exact keys_set_of_mem h
  · funext k'
    by_cases hk : k' = k
    · rw [hk, get_set_self, h]
    · rw [get_set_ne d v hk]

/-- Dropping a key leaves no trace of what was stored under it. -/
theorem erase_set (d : Dict K V) (k : K) (v : V) : (d.set k v).erase k = d.erase k := by
  ext1
  · simp only [set, erase]
    split
    · rfl
    · rename_i h
      rw [List.erase_append_right _ h, List.erase_of_not_mem h]
      simp
  · funext k'
    by_cases h : k' = k <;> simp [get_set, get_erase, h]

theorem erase_of_new {d : Dict K V} {k : K} (h : d.get k = none) : d.erase k = d := by
  ext1
  · have hmem : k ∉ d.keys := by simp [d.mem_keys, h]
    exact List.erase_of_not_mem hmem
  · funext k'
    by_cases hk : k' = k <;> simp [get_erase, hk, h]

/-- The sum runs over any set of keys that has all the keys of the dictionary. -/
theorem sum_eq_finset {M : Type} [AddCommGroup M] (d : Dict K V) (f : V → M) {ks : Finset K}
    (h : d.keys.toFinset ⊆ ks) : d.sum f = ∑ k ∈ ks, d.term f k := by
  rw [sum_eq_keys, ← List.sum_toFinset _ d.nodup]
  refine Finset.sum_subset h fun k _ hk => term_of_not_get ?_
  simpa [d.mem_keys] using hk

/-- Dictionaries whose values have the same shares, key by key, have the same sum. -/
theorem sum_eq_of_term {M : Type} [AddCommGroup M] {d e : Dict K V} {f g : V → M}
    (h : ∀ k, d.term f k = e.term g k) : d.sum f = e.sum g := by
  have hd : d.keys.toFinset ⊆ d.keys.toFinset ∪ e.keys.toFinset := Finset.subset_union_left
  have he : e.keys.toFinset ⊆ d.keys.toFinset ∪ e.keys.toFinset := Finset.subset_union_right
  rw [sum_eq_finset d f hd, sum_eq_finset e g he]
  exact Finset.sum_congr rfl fun k _ => h k

theorem map_set {W : Type} (d : Dict K V) (f : V → W) (k : K) (v : V) :
    (d.set k v).map f = (d.map f).set k (f v) := by
  ext1
  · rfl
  · funext k'
    by_cases h : k' = k <;> simp [get_set, h]

end Dict

end AssetStore.Lib
