import AssetStore.Guard.Mediation
import AssetStore.Registry.Placement
import AssetStore.Registry.States

/-! The bucket of an asset is the bucket of its aliases, in every reachable state; so a lookup finds
only assets of the bucket that it names. -/

namespace AssetStore

open Lib

/-- Assets are in storage buckets, and a binding is in the bucket of its asset. -/
structure Housed (aliases : Dict Text AliasBinding) (assets : Dict Text Asset) : Prop where
  bucket : ∀ id a, assets.get id = some a → a.space ∈ storageBuckets
  bound : ∀ key b id a, aliases.get key = some b → b.assetId = some id → assets.get id = some a →
    b.space = a.space

namespace Housed

variable {aliases aliases' : Dict Text AliasBinding} {assets : Dict Text Asset} {id : Text}
  {a a' : Asset}

theorem empty : Housed .empty .empty where
  bucket _ _ h := by cases h
  bound _ _ _ _ h := by cases h

/-- A record is rewritten in its bucket. -/
theorem put (h : Housed aliases assets) (get : assets.get id = some a)
    (space : a'.space = a.space) :
    Housed aliases (assets.set id a') where
  bucket i c hc := by
    rw [Dict.get_set] at hc
    split at hc
    · obtain rfl := Option.some.inj hc
      exact space ▸ h.bucket id a get
    · exact h.bucket i c hc
  bound key b i c hk hb hc := by
    rw [Dict.get_set] at hc
    split at hc
    · rename_i heq
      obtain rfl := Option.some.inj hc
      exact (h.bound key b id a hk (heq ▸ hb) get).trans space.symm
    · exact h.bound key b i c hk hb hc

/-- The bindings that remain, and those that are new in the bucket of their asset. -/
theorem rebound (h : Housed aliases assets)
    (new : ∀ key b, aliases'.get key = some b → aliases.get key = some b ∨
      ∀ id a, b.assetId = some id → assets.get id = some a → b.space = a.space) :
    Housed aliases' assets where
  bucket := h.bucket
  bound key b id a hk hb ha :=
    (new key b hk).elim (fun hold => h.bound key b id a hold hb ha) fun hnew => hnew id a hb ha

/-- A new asset, which no binding names yet. -/
theorem create (h : Housed aliases assets)
    (fresh : ∀ key b, aliases.get key = some b → b.assetId ≠ some id)
    (space : a.space ∈ storageBuckets) : Housed aliases (assets.set id a) where
  bucket i c hc := by
    rw [Dict.get_set] at hc
    split at hc
    · exact Option.some.inj hc ▸ space
    · exact h.bucket i c hc
  bound key b i c hk hb hc := by
    have hne : i ≠ id := by
      rintro rfl
      exact fresh key b hk hb
    rw [Dict.get_set_ne _ _ hne] at hc
    exact h.bound key b i c hk hb hc

variable {env : Env} {clock : Nat → Time} {op : Op} {r r' : Registry}

theorem change (h : Housed r.aliases r.assets) (hi : Indexed r.aliases r.assets)
    (hc : Change env clock r op r') : Housed r'.aliases r'.assets := by
  have inBucket : ∀ {a : Asset} {id name key : Text} {mutable : Bool} {b : AliasBinding},
      NewBinding clock a id name mutable key b → a.space ∈ storageBuckets → b.space = a.space :=
    fun hb hmem => Except.ok.inj (hb.space.symm.trans (normalizeBucket_of_mem hmem))
  cases hc with
  | forget => exact h
  | charge => exact h
  | log => exact h
  | note get => exact h.put get rfl
  | @reserve newId req a new _ fresh asset _ _ bindings _ _ =>
    have hspace : a.space ∈ storageBuckets := (normalizeBucket_eq_ok.mp asset.space).2
    have hcreated : Housed r.aliases (r.assets.set newId a) := by
      refine h.create (fun key b hk hb => ?_) hspace
      obtain ⟨c, hc, -⟩ := hi.listed key b newId hk hb
      cases fresh.symm.trans hc
    refine hcreated.rebound fun key b hk => ?_
    by_cases hnew : key ∈ new.map Prod.fst
    · obtain ⟨kb, hkb, -, hget⟩ := Indexed.bindAll_of_mem (d := r.aliases) hnew
      obtain rfl : kb.2 = b := Option.some.inj (hget.symm.trans hk)
      obtain ⟨name, hbinding⟩ := bindings kb hkb
      refine .inr fun i c hid hc => ?_
      obtain rfl : newId = i := Option.some.inj (hbinding.bound.symm.trans hid)
      obtain rfl : a = c := Option.some.inj ((Dict.get_set_self _ _ _).symm.trans hc)
      exact inBucket hbinding hspace
    · exact .inl (Indexed.bindAll_of_not_mem hnew ▸ hk)
  | @attach id _ _ _ _ a b _ _ get _ binding _ =>
    refine Housed.put (h.rebound fun key c hk => ?_) get rfl
    rw [Dict.get_set] at hk
    split at hk
    · obtain rfl := Option.some.inj hk
      refine .inr fun i c hid hc => ?_
      obtain rfl : id = i := Option.some.inj (binding.bound.symm.trans hid)
      obtain rfl : a = c := Option.some.inj (get.symm.trans hc)
      exact inBucket binding (h.bucket id a get)
    · exact .inl hk
  | detach _ _ _ _ _ asset _
  | drop _ _ _ _ _ asset _ =>
    refine Housed.put (h.rebound fun key c hk => ?_) asset rfl
    rw [Dict.get_erase] at hk
    split at hk
    · cases hk
    · exact .inl hk
  | unbind _ _ _ _ _ asset =>
    refine Housed.put (h.rebound fun key c hk => ?_) asset rfl
    rw [Dict.get_set] at hk
    split at hk
    · obtain rfl := Option.some.inj hk
      exact .inr fun i c hid => by cases hid
    · exact .inl hk
  | @rebind _ _ _ _ _ id a b _ _ _ _ _ _ _ _ asset sameSpace _ _ =>
    refine Housed.put (h.rebound fun key c hk => ?_) asset rfl
    rw [Dict.get_set] at hk
    split at hk
    · obtain rfl := Option.some.inj hk
      refine .inr fun i c hid hc => ?_
      obtain rfl : id = i := Option.some.inj hid
      obtain rfl : a = c := Option.some.inj (asset.symm.trans hc)
      exact sameSpace.symm
    · exact .inl hk
  | move get step _ => exact h.put get step.place.1

end Housed

section Lookups

variable {env : Env} {grace : Int} {calls : List (Op × (Nat → Time))} {r : Registry}
  {s s' : Session}
  {a : Asset} {space name : Text}

theorem Runs.housed (h : Runs env (Registry.initial grace) calls r) :
    Housed r.aliases r.assets := by
  have hboth := h.of_change (P := fun r => Indexed r.aliases r.assets ∧ Housed r.aliases r.assets)
    ⟨.empty, .empty⟩ fun _ hr hc => ⟨hr.1.change hc, hr.2.change hr.1 hc⟩
  exact hboth.2

/-- A key names one bucket. -/
theorem bucket_of_key {b : AliasBinding} {key : Text} (lookup : aliasKey space name = .ok key)
    (own : b.qualifiedAlias = .ok key) : normalizeSpace space = normalizeSpace b.space := by
  simp only [aliasKey, except_bind_eq_ok] at lookup
  obtain ⟨bucket, hbucket, path, -, hkey⟩ := lookup
  obtain ⟨bucket', path', hbucket', -, rfl⟩ := qualifiedAlias_eq_ok.mp hkey
  obtain ⟨bucket'', path'', hbucket'', -, hsame⟩ := qualifiedAlias_eq_ok.mp own
  have hmem := (normalizeBucket_eq_ok.mp hbucket).2
  have hmem'' := (normalizeBucket_eq_ok.mp hbucket'').2
  obtain rfl : bucket = bucket' := Except.ok.inj ((normalizeBucket_of_mem hmem).symm.trans hbucket')
  have hsplit := congrArg (fun t => (partitionSlash t).1) hsame
  simp only [partitionSlash_append (bucket_no_slash hmem),
    partitionSlash_append (bucket_no_slash hmem'')]
    at hsplit
  obtain rfl := hsplit
  exact hbucket.trans hbucket''.symm

/-- A lookup finds a stored asset of the bucket that it names. -/
theorem Runs.resolveAlias_found (h : Runs env (Registry.initial grace) calls s.reg)
    (found : resolveAlias space name s = .ok a s') :
    s.reg.assets.get a.assetId = some a ∧ normalizeSpace space = .ok a.space := by
  obtain ⟨key, hkey, hunder⟩ := resolveAlias_eq_ok found
  simp only [Registry.assetUnder, Option.bind_eq_some_iff] at hunder
  obtain ⟨id, ⟨b, hb, hid⟩, get⟩ := hunder
  have hhoused := h.housed
  have hspace := hhoused.bound key b id a hb hid get
  refine ⟨h.filed id a get ▸ get, ?_⟩
  rw [bucket_of_key hkey (h.indexed.own key b hb), hspace]
  exact normalizeBucket_of_mem (hhoused.bucket id a get)

end Lookups

end AssetStore
