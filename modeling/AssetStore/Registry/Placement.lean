import AssetStore.Registry.Index

/-! Where an alias lives. A key that is bound to an asset lies under the asset's partition, as long
as no alias is rebound whose first path segment carries whitespace: the registry reads the partition
of a detached alias off that segment, and normalizes it on the way. -/

namespace AssetStore

open Lib Relation

/-! ### Paths under a canonical partition -/

section Paths

variable {root path : Text}

/-- The first segment of a path under a partition is that of the partition. -/
theorem isUnder_first (h : isUnder root path = true) :
    (partitionSlash path).1 = (partitionSlash root).1 := by
  rcases isUnder_iff.mp h with rfl | ⟨rest, rfl⟩
  · rfl
  · rcases hroot : partitionSlash root with ⟨first, found, tail⟩
    cases found with
    | true =>
      obtain ⟨rfl, hslash⟩ := partitionSlash_true hroot
      rw [List.append_assoc, List.cons_append, partitionSlash_append hslash]
    | false =>
      obtain ⟨rfl, hslash⟩ := partitionSlash_false hroot
      rw [partitionSlash_append hslash]

/-- A path lies under its first segment. -/
theorem isUnder_partitionSlash (path : Text) : isUnder (partitionSlash path).1 path = true := by
  rcases hpath : partitionSlash path with ⟨first, found, tail⟩
  cases found with
  | true =>
    obtain ⟨rfl, -⟩ := partitionSlash_true hpath
    exact isUnder_iff.mpr (.inr ⟨tail, rfl⟩)
  | false =>
    obtain ⟨rfl, -⟩ := partitionSlash_false hpath
    exact isUnder_iff.mpr (.inl rfl)

/-- A path is its own first segment exactly when it has no other. -/
theorem partitionSlash_eq_self_iff : (partitionSlash path).1 = path ↔ '/' ∉ path := by
  constructor
  · intro h
    rw [← h]
    exact partitionSlash_noSlash path
  · intro h
    rcases hcut : partitionSlash path with ⟨first, found, tail⟩
    cases found with
    | true =>
      obtain ⟨rfl, -⟩ := partitionSlash_true hcut
      simp at h
    | false => exact (partitionSlash_false hcut).1.symm

/-- Trimming a path under a canonical partition leaves it there. -/
theorem isUnder_trimPath (canonical : trimPath root = root) (hne : root ≠ [])
    (h : isUnder root path = true) : isUnder root (trimPath path) = true := by
  rcases isUnder_iff.mp h with rfl | ⟨rest, rfl⟩
  · rw [canonical]
    exact h
  · have hlead : lead isSpace isSlash root = root := lead_of_trim _ _ canonical
    have htrail : trail isSpace isSlash root = root := trail_of_trim _ _ canonical
    rw [trimPath, trim_eq_lead_trail]
    by_cases hrest : trail isSpace isSlash rest = []
    · rw [trail_append_cons (by decide) (by decide) htrail hrest, hlead]
      exact isUnder_iff.mpr (.inl rfl)
    · rw [show root ++ '/' :: rest = (root ++ ['/']) ++ rest by simp, trail_append hrest,
        List.append_assoc, lead_append (by rwa [hlead]), hlead]
      exact isUnder_iff.mpr (.inr ⟨_, rfl⟩)

end Paths

/-! ### The invariant -/

/-- The first segment of a path has no outer whitespace. -/
def PlainFirst (path : Text) : Prop := stripSpace (partitionSlash path).1 = (partitionSlash path).1

/-- The alias that is rebound, as it is looked up, has a plain first segment. -/
def Op.RebindsPlainly : Op → Prop
  | .rebindAlias space name _ _ =>
    ∀ key, aliasKey space name = .ok key → PlainFirst (partitionSlash key).2.2
  | _ => True

/-- A partition id that normalization leaves as it is. -/
def Canonical (pid : Text) : Prop := normalizePartitionId pid = .ok pid

theorem Canonical.trimPath_eq {pid : Text} (h : Canonical pid) : trimPath pid = pid ∧ pid ≠ [] := by
  obtain ⟨htrim, hne, -⟩ := normalizeRelativeAlias_eq_ok.mp h
  exact ⟨htrim, hne⟩

/-- Assets have canonical partitions, and aliases lie under the partition of their asset. -/
structure Placed (aliases : Dict Text AliasBinding) (assets : Dict Text Asset) : Prop where
  canonical : ∀ id a, assets.get id = some a → a.space ∈ storageBuckets ∧ Canonical a.partitionId
  rooted : ∀ key b, aliases.get key = some b →
    ∃ root, Canonical root ∧ isUnder root b.aliasName = true
  bound : ∀ key b id a, aliases.get key = some b → b.assetId = some id → assets.get id = some a →
    b.space = a.space ∧ isUnder a.partitionId b.aliasName = true

namespace Placed

variable {aliases aliases' : Dict Text AliasBinding} {assets : Dict Text Asset} {key id : Text}
  {a a' : Asset} {b : AliasBinding}

theorem empty : Placed .empty .empty where
  canonical _ _ h := by cases h
  rooted _ _ h := by cases h
  bound _ _ _ _ h := by cases h

/-- A record is rewritten in its place. -/
theorem put (h : Placed aliases assets) (get : assets.get id = some a) (space : a'.space = a.space)
    (partition : a'.partitionId = a.partitionId) : Placed aliases (assets.set id a') where
  canonical i c hc := by
    rw [Dict.get_set] at hc
    split at hc
    · obtain rfl := Option.some.inj hc
      rw [space, partition]
      exact h.canonical id a get
    · exact h.canonical i c hc
  rooted := h.rooted
  bound k b i c hk hb hc := by
    rw [Dict.get_set] at hc
    split at hc
    · rename_i heq
      obtain rfl := Option.some.inj hc
      rw [space, partition]
      exact h.bound k b id a hk (heq ▸ hb) get
    · exact h.bound k b i c hk hb hc

/-- The bindings that remain, and those that are new and in their place. -/
theorem rebound (h : Placed aliases assets)
    (new : ∀ k b, aliases'.get k = some b → aliases.get k = some b ∨
      (∃ root, Canonical root ∧ isUnder root b.aliasName = true) ∧
        ∀ i c, b.assetId = some i → assets.get i = some c →
          b.space = c.space ∧ isUnder c.partitionId b.aliasName = true) :
    Placed aliases' assets where
  canonical := h.canonical
  rooted k b hk := by
    rcases new k b hk with hold | ⟨hroot, -⟩
    · exact h.rooted k b hold
    · exact hroot
  bound k b i c hk hb hc := by
    rcases new k b hk with hold | ⟨-, hplace⟩
    · exact h.bound k b i c hold hb hc
    · exact hplace i c hb hc

/-- A new asset, which no binding names yet. -/
theorem create (h : Placed aliases assets)
    (fresh : ∀ k b, aliases.get k = some b → b.assetId ≠ some id)
    (space : a.space ∈ storageBuckets) (partition : Canonical a.partitionId) :
    Placed aliases (assets.set id a) where
  canonical i c hc := by
    rw [Dict.get_set] at hc
    split at hc
    · obtain rfl := Option.some.inj hc
      exact ⟨space, partition⟩
    · exact h.canonical i c hc
  rooted := h.rooted
  bound k b i c hk hb hc := by
    have hne : i ≠ id := by
      rintro rfl
      exact fresh k b hk hb
    rw [Dict.get_set_ne _ _ hne] at hc
    exact h.bound k b i c hk hb hc

end Placed

section Changes

variable {env : Env} {clock : Nat → Time} {op : Op} {r r' : Registry} {id : Text} {a a' : Asset}

theorem Transition.place {action : AuditAction} (h : Transition env clock id a op action a') :
    a'.space = a.space ∧ a'.partitionId = a.partitionId := by
  cases h <;> exact ⟨rfl, rfl⟩

/-- A new binding lies under the partition of its asset. -/
theorem NewBinding.placed {name key : Text} {mutable : Bool} {b : AliasBinding}
    (h : NewBinding clock a id name mutable key b) (space : a.space ∈ storageBuckets)
    (partition : Canonical a.partitionId) :
    b.space = a.space ∧ isUnder a.partitionId b.aliasName = true := by
  constructor
  · have := h.space.symm.trans (normalizeBucket_of_mem space)
    exact Except.ok.inj this
  · obtain ⟨rel, -, root, hroot, hpath⟩ : ∃ rel, normalizeRelativeAlias name = .ok rel ∧
        ∃ root, normalizePartitionId a.partitionId = .ok root ∧
          (if isUnder root rel then rel else root ++ '/' :: rel) = b.aliasName := by
      simpa [aliasUnderPartition] using h.path
    obtain rfl : a.partitionId = root := Except.ok.inj (partition.symm.trans hroot)
    split at hpath
    · rename_i hunder
      exact hpath ▸ hunder
    · exact hpath ▸ isUnder_iff.mpr (.inr ⟨rel, rfl⟩)

/-- The partition that is read off a plain alias is one that the alias lies under. -/
theorem rebind_placed {space name key : Text} {b : AliasBinding} {root : Text}
    (canonical : Canonical root) (under : isUnder root b.aliasName = true)
    (lookup : aliasKey space name = .ok key) (own : b.qualifiedAlias = .ok key)
    (plain : ∀ key, aliasKey space name = .ok key → PlainFirst (partitionSlash key).2.2)
    (partition : partitionFromScopedAlias b.aliasName = .ok a.partitionId) :
    isUnder a.partitionId b.aliasName = true := by
  obtain ⟨bucket, path, hbucket, hpath, hkey⟩ := qualifiedAlias_eq_ok.mp own
  have hmem := (normalizeBucket_eq_ok.mp hbucket).2
  obtain ⟨rfl, -, -⟩ := normalizeRelativeAlias_eq_ok.mp hpath
  have hfirst := plain key lookup
  rw [← hkey, partitionSlash_append (bucket_no_slash hmem)] at hfirst
  -- the path of the key has the same first segment as the alias, that of the root
  have hsame : (partitionSlash (trimPath b.aliasName)).1 = (partitionSlash b.aliasName).1 := by
    rw [isUnder_first under, isUnder_first
      (isUnder_trimPath canonical.trimPath_eq.1 canonical.trimPath_eq.2 under)]
  rw [PlainFirst, hsame] at hfirst
  obtain ⟨htrim, -, -⟩ := normalizeRelativeAlias_eq_ok.mp partition
  rw [trimPath_noSlash (partitionSlash_noSlash _), hfirst] at htrim
  rw [← htrim]
  exact isUnder_partitionSlash _

theorem Placed.change (h : Placed r.aliases r.assets) (hi : Indexed r.aliases r.assets)
    (canon : op.CanonicalPartition) (plain : op.RebindsPlainly) (hc : Change env clock r op r') :
    Placed r'.aliases r'.assets := by
  cases hc with
  | forget => exact h
  | charge => exact h
  | log => exact h
  | note get => exact h.put get rfl rfl
  | @reserve newId req a new _ fresh asset _ _ bindings _ _ =>
    have hspace : a.space ∈ storageBuckets := (normalizeBucket_eq_ok.mp asset.space).2
    have hpid : Canonical a.partitionId := by
      have heq : req.partitionId = a.partitionId :=
        Except.ok.inj (canon.symm.trans asset.partitionId)
      exact heq ▸ canon
    have hcreated : Placed r.aliases (r.assets.set newId a) := by
      refine h.create (fun k b hk hb => ?_) hspace hpid
      obtain ⟨c, hc, -⟩ := hi.listed k b newId hk hb
      rw [fresh] at hc
      cases hc
    refine hcreated.rebound fun k b hk => ?_
    by_cases hnew : k ∈ new.map Prod.fst
    · obtain ⟨kb, hkb, -, hget⟩ := Indexed.bindAll_of_mem (d := r.aliases) hnew
      obtain rfl : kb.2 = b := Option.some.inj (hget.symm.trans hk)
      obtain ⟨name, hbinding⟩ := bindings kb hkb
      have hplaced := hbinding.placed hspace hpid
      refine .inr ⟨⟨_, hpid, hplaced.2⟩, fun i c hi hc => ?_⟩
      obtain rfl : newId = i := Option.some.inj (hbinding.bound.symm.trans hi)
      obtain rfl : a = c := Option.some.inj ((Dict.get_set_self _ _ _).symm.trans hc)
      exact hplaced
    · exact .inl (Indexed.bindAll_of_not_mem hnew ▸ hk)
  | @attach id _ _ _ _ a b _ _ get _ binding _ =>
    obtain ⟨hspace, hpid⟩ := h.canonical id a get
    have hplaced := binding.placed hspace hpid
    refine Placed.put (h.rebound fun k c hk => ?_) get rfl rfl
    rw [Dict.get_set] at hk
    split at hk
    · obtain rfl := Option.some.inj hk
      refine .inr ⟨⟨_, hpid, hplaced.2⟩, fun i c hi hc => ?_⟩
      obtain rfl : id = i := Option.some.inj (binding.bound.symm.trans hi)
      obtain rfl : a = c := Option.some.inj (get.symm.trans hc)
      exact hplaced
    · exact .inl hk
  | detach _ _ _ _ _ asset _
  | drop _ _ _ _ _ asset _ =>
    refine Placed.put (h.rebound fun k c hk => ?_) asset rfl rfl
    rw [Dict.get_erase] at hk
    split at hk
    · cases hk
    · exact .inl hk
  | unbind _ get _ _ _ asset =>
    have hrooted := h.rooted _ _ get
    refine Placed.put (h.rebound fun k c hk => ?_) asset rfl rfl
    rw [Dict.get_set] at hk
    split at hk
    · obtain rfl := Option.some.inj hk
      exact .inr ⟨hrooted, fun i c hi => by cases hi⟩
    · exact .inl hk
  | @rebind _ _ _ _ _ id a b _ _ _ lookup get own _ _ asset sameSpace partition _ =>
    obtain ⟨root, hroot, hunder⟩ := h.rooted _ _ get
    obtain rfl := hi.key_eq get own
    have hplaced := rebind_placed hroot hunder lookup own plain partition
    refine Placed.put (h.rebound fun k c hk => ?_) asset rfl rfl
    rw [Dict.get_set] at hk
    split at hk
    · obtain rfl := Option.some.inj hk
      refine .inr ⟨⟨root, hroot, hunder⟩, fun i c hi hc => ?_⟩
      obtain rfl : id = i := Option.some.inj hi
      obtain rfl : a = c := Option.some.inj (asset.symm.trans hc)
      exact ⟨sameSpace.symm, hplaced⟩
    · exact .inl hk
  | move get step _ => exact h.put get step.place.1 step.place.2

end Changes

/-! ### Runs -/

section Runs

variable {env : Env} {grace : Int} {calls : List (Op × (Nat → Time))} {r : Registry}

theorem Runs.placed (h : Runs env (Registry.initial grace) calls r)
    (canon : ∀ c ∈ calls, c.1.CanonicalPartition) (plain : ∀ c ∈ calls, c.1.RebindsPlainly) :
    Placed r.aliases r.assets := by
  have hboth := h.of_change (P := fun r => Indexed r.aliases r.assets ∧ Placed r.aliases r.assets)
    ⟨.empty, .empty⟩ fun hmem hr hc =>
      ⟨hr.1.change hc, hr.2.change hr.1 (canon _ hmem) (plain _ hmem) hc⟩
  exact hboth.2

/-- The two sides of the alias index agree in every reachable state; and where every rebound alias
has a plain first segment, each key lies under the partition of its asset. -/
theorem index_of_runs (h : Runs env (Registry.initial grace) calls r)
    (canon : ∀ c ∈ calls, c.1.CanonicalPartition) (plain : ∀ c ∈ calls, c.1.RebindsPlainly) :
    (∀ key id, (∃ b, r.aliases.get key = some b ∧ b.assetId = some id) ↔
        ∃ a, r.assets.get id = some a ∧ key ∈ a.aliases) ∧
      (∀ key id a id' a', r.assets.get id = some a → key ∈ a.aliases →
        r.assets.get id' = some a' → key ∈ a'.aliases → id = id') ∧
      (∀ key b, r.aliases.get key = some b → b.qualifiedAlias = .ok key) ∧
      (∀ key b, r.aliases.get key = some b → b.assetId = none →
        b.mutable = true ∧ ∃ id a, b.previousAssetId = some id ∧ r.assets.get id = some a) ∧
      ∀ key b id a, r.aliases.get key = some b → b.assetId = some id → r.assets.get id = some a →
        b.space = a.space ∧ isUnder a.partitionId b.aliasName = true ∧
          ∃ path, key = a.space ++ '/' :: path ∧ isUnder a.partitionId path = true := by
  have hi := h.indexed
  have hplaced := h.placed canon plain
  refine ⟨fun key id => ⟨?_, ?_⟩, ?_, hi.own, hi.unbound, ?_⟩
  · rintro ⟨b, hb, hid⟩
    exact hi.listed key b id hb hid
  · rintro ⟨a, ha, hkey⟩
    exact hi.bound id a key ha hkey
  · intro key id a id' a' ha hkey ha' hkey'
    obtain ⟨b, hb, hid⟩ := hi.bound id' a' key ha' hkey'
    exact hi.owner hb hid ha hkey
  · intro key b id a hb hid ha
    obtain ⟨hspace, hunder⟩ := hplaced.bound key b id a hb hid ha
    obtain ⟨hbucket, hpid⟩ := hplaced.canonical id a ha
    obtain ⟨bucket, path, hnorm, hpath, hkey⟩ := qualifiedAlias_eq_ok.mp (hi.own key b hb)
    obtain rfl : a.space = bucket := by
      rw [hspace, normalizeBucket_of_mem hbucket] at hnorm
      exact Except.ok.inj hnorm
    obtain ⟨rfl, -, -⟩ := normalizeRelativeAlias_eq_ok.mp hpath
    exact ⟨hspace, hunder, _, hkey.symm,
      isUnder_trimPath hpid.trimPath_eq.1 hpid.trimPath_eq.2 hunder⟩

end Runs

/-- The path of the key that the upload binds. -/
theorem index_uploaded :
    ∃ b a path, uploaded.aliases.get "cache/m/x".toList = some b ∧
      uploaded.assets.get "a1".toList = some a ∧ "cache/m/x".toList = a.space ++ '/' :: path ∧
      isUnder a.partitionId path = true := by
  have hbound : (uploaded.aliases.get "cache/m/x".toList).any
      (fun b => b.assetId == some "a1".toList) = true := by decide +kernel
  obtain ⟨b, hb, hid⟩ := (Option.any_eq_true _ _).mp hbound
  have hid : b.assetId = some "a1".toList := by simpa using hid
  have hcanon :
      ∀ c ∈ ([(reserveCall, fun _ => 0), (commitCall, fun _ => 1)] : List (Op × (Nat → Time))),
      c.1.CanonicalPartition := by
    simp only [List.mem_cons, List.not_mem_nil, or_false, forall_eq_or_imp, forall_eq]
    exact ⟨rfl, trivial⟩
  have hindex := index_of_runs uploaded_runs hcanon
    (by simp [reserveCall, commitCall, Op.RebindsPlainly])
  obtain ⟨a, ha, -⟩ := (hindex.1 _ _).mp ⟨b, hb, hid⟩
  obtain ⟨-, -, path, hkey, hunder⟩ := hindex.2.2.2.2 _ b _ a hb hid ha
  exact ⟨b, a, path, hb, ha, hkey, hunder⟩

/-- An alias of the partition `a /b` is detached and rebound to an asset of the partition `a`. -/
theorem rebound_elsewhere : ∃ calls r, Runs plainEnv (.initial 0) calls r ∧
    (∀ c ∈ calls, c.1.CanonicalPartition) ∧
    ∃ b a, r.aliases.get "cache/a /b/x".toList = some b ∧ b.assetId = some "a2".toList ∧
      r.assets.get "a2".toList = some a ∧ isUnder a.partitionId b.aliasName = false := by
  let reserve (id pid name : Text) : Op :=
    .reserveAsset id
      { space := "cache".toList, partitionId := pid, aliases := [(name, true)]
        ownerServiceId := "svc".toList }
  let calls : List (Op × (Nat → Time)) :=
    [(reserve "a1".toList "a /b".toList "x".toList, fun _ => 0),
     (reserve "a2".toList "a".toList "y".toList, fun _ => 0),
     (.commitAsset "a2".toList 3 "sha256:00".toList "svc".toList none none, fun _ => 0),
     (.detachMutableAlias "cache".toList "a /b/x".toList "svc".toList, fun _ => 0),
     (.rebindAlias "cache".toList "a /b/x".toList "a2".toList "svc".toList, fun _ => 0)]
  have hplays : (playCalls plainEnv (.initial 0) calls).any (fun r =>
      (r.aliases.get "cache/a /b/x".toList).any fun b => (r.assets.get "a2".toList).any fun a =>
        b.assetId == some "a2".toList && !isUnder a.partitionId b.aliasName) =
          true := by decide +kernel
  obtain ⟨r, hruns, hend⟩ := exists_runs_of_play hplays
  obtain ⟨b, hb, hend⟩ := (Option.any_eq_true _ _).mp hend
  obtain ⟨a, ha, hend⟩ := (Option.any_eq_true _ _).mp hend
  have hend : b.assetId = some "a2".toList ∧ isUnder a.partitionId b.aliasName = false := by
    simpa using hend
  refine ⟨calls, r, hruns, ?_, b, a, hb, hend.1, ha, hend.2⟩
  simp only [calls, reserve, List.mem_cons, List.not_mem_nil, or_false, forall_eq_or_imp, forall_eq]
  exact ⟨rfl, rfl, trivial, trivial, trivial⟩

end AssetStore
