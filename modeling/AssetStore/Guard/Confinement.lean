import AssetStore.Guard.Spec

/-! Which key a write binds. The guard checks one key and hands the registry a partition and a name,
from which the registry builds a key again. The two agree exactly on the paths that the guard
splits cleanly. -/

namespace AssetStore

open Lib

/-- Cut at its first slash, the path has no outer whitespace in either part, and the second part
does not start with the first. -/
structure SplitsCleanly (path : Text) : Prop where
  partition : stripSpace (partitionSlash path).1 = (partitionSlash path).1
  name : stripSpace (partitionSlash path).2.2 = (partitionSlash path).2.2
  apart : isUnder (partitionSlash path).1 (partitionSlash path).2.2 = false

theorem splitsCleanly_iff_and {path : Text} :
    SplitsCleanly path ↔ stripSpace (partitionSlash path).1 = (partitionSlash path).1 ∧
      stripSpace (partitionSlash path).2.2 = (partitionSlash path).2.2 ∧
      isUnder (partitionSlash path).1 (partitionSlash path).2.2 = false :=
  ⟨fun h => ⟨h.partition, h.name, h.apart⟩, fun ⟨hp, hn, ha⟩ => ⟨hp, hn, ha⟩⟩

instance (path : Text) : Decidable (SplitsCleanly path) := decidable_of_iff' _ splitsCleanly_iff_and

/-! ### Paths -/

section Paths

variable {p n r : Text}

theorem noSlash_stripSpace (h : '/' ∉ p) : '/' ∉ stripSpace p := fun hmem =>
  h ((strip_within isSpace p).subset hmem)

theorem lead_noSlash (h : '/' ∉ p) : lead isSpace isSlash p = p.dropWhile isSpace :=
  lead_eq_dropWhile fun c hc => by
    have : c ≠ '/' := fun e => h (e ▸ hc)
    simp [isSlash, this]

/-- A path without empty segments does not start with a slash after its first one. -/
theorem head_of_segments {p n : Text} (h : ∀ part ∈ (p ++ '/' :: n).splitOn '/', ¬BadSegment part) :
    n.dropWhile isSlash = n := by
  cases n with
  | nil => rfl
  | cons c n =>
    by_cases hc : c = '/'
    · subst hc
      have hmem : ([] : Text) ∈ (p ++ '/' :: '/' :: n).splitOn '/' := by
        rw [List.splitOn_append_cons_self, show '/' :: n = [] ++ '/' :: n from rfl,
          List.splitOn_append_cons_self]
        simp
      exact absurd (.inl rfl) (h [] hmem)
    · rw [List.dropWhile_cons_of_neg (by simp [isSlash, hc])]

/-- The guard cuts the path `r` into a partition and a name, both non-empty once trimmed. -/
structure Cut (r p n : Text) : Prop where
  eq : r = p ++ '/' :: n
  noSlash : '/' ∉ p
  segments : ∀ part ∈ r.splitOn '/', ¬BadSegment part
  partition : stripSpace p ≠ []
  name : trimPath n ≠ []

/-- What remains of the name at the back. -/
abbrev nameTail (n : Text) : Text := trail isSpace isSlash n

theorem Cut.nameTail_ne_nil (h : Cut r p n) : nameTail n ≠ [] := fun he => by
  have hname := h.name
  have hlead : trimPath n = lead isSpace isSlash (nameTail n) := trim_eq_lead_trail _ _ n
  rw [hlead, he] at hname
  exact hname rfl

theorem Cut.front_ne_nil (h : Cut r p n) : p.dropWhile isSpace ≠ [] := fun he => by
  have hp := h.partition
  rw [stripSpace, strip, he] at hp
  exact hp rfl

/-- The path that is checked loses whitespace in front of the partition and what the name has at
its back. -/
theorem Cut.trimPath_eq (h : Cut r p n) :
    trimPath r = p.dropWhile isSpace ++ '/' :: nameTail n := by
  have htrail : trail isSpace isSlash r = p ++ '/' :: nameTail n := by
    rw [h.eq, show p ++ '/' :: n = (p ++ ['/']) ++ n by simp, trail_append h.nameTail_ne_nil]
    simp
  have hlead : lead isSpace isSlash p ≠ [] := by
    rw [lead_noSlash h.noSlash]
    exact h.front_ne_nil
  rw [trimPath, trim_eq_lead_trail, htrail, lead_append hlead, lead_noSlash h.noSlash]

theorem Cut.trimPath_ne_nil (h : Cut r p n) : trimPath r ≠ [] := by
  rw [h.trimPath_eq]
  simp

theorem Cut.front_noSlash (h : Cut r p n) : '/' ∉ p.dropWhile isSpace := fun hmem =>
  h.noSlash ((List.dropWhile_suffix isSpace).subset hmem)

theorem Cut.splitsCleanly_iff (h : Cut r p n) :
    SplitsCleanly (trimPath r) ↔
      stripSpace p = p.dropWhile isSpace ∧ stripSpace (nameTail n) = nameTail n ∧
        isUnder (p.dropWhile isSpace) (nameTail n) = false := by
  have hstrip : stripSpace (p.dropWhile isSpace) = stripSpace p := by
    simp [stripSpace, strip, List.dropWhile_idempotent]
  rw [splitsCleanly_iff_and, h.trimPath_eq, partitionSlash_append h.front_noSlash]
  simp only [hstrip]

/-- The name's tail neither starts nor ends with a slash. -/
theorem Cut.stripSlash_nameTail (h : Cut r p n) : stripSlash (nameTail n) = nameTail n := by
  have hfront : (nameTail n).dropWhile isSlash = nameTail n := by
    obtain ⟨rest, hrest⟩ : nameTail n <+: n := trail_starts isSpace isSlash n
    have hn : n.dropWhile isSlash = n := head_of_segments (h.eq ▸ h.segments)
    cases ht : nameTail n with
    | nil => rfl
    | cons c t =>
      by_cases hc : isSlash c = true
      · rw [← hrest, ht, List.cons_append, List.dropWhile_cons_of_pos hc] at hn
        have := (List.dropWhile_suffix isSlash (l := t ++ rest)).length_le
        rw [hn] at this
        simp only [List.length_cons, List.length_append] at this
        omega
      · rw [List.dropWhile_cons_of_neg hc]
  unfold stripSlash strip
  rw [hfront]
  exact List.rdropWhile_idempotent isSlash _

theorem Cut.trimPath_nameTail (h : Cut r p n) :
    trimPath (nameTail n) = nameTail n ↔ stripSpace (nameTail n) = nameTail n := by
  have hsub : stripSpace (nameTail n) = nameTail n → trimPath (nameTail n) = nameTail n :=
    fun hs => by
    have : trimPath (nameTail n) = stripSlash (stripSpace (nameTail n)) := rfl
    rw [this, hs, h.stripSlash_nameTail]
  refine ⟨fun ht => ?_, hsub⟩
  have hlen : (nameTail n).length ≤ (stripSpace (nameTail n)).length := by
    calc (nameTail n).length = (stripSlash (stripSpace (nameTail n))).length :=
          congrArg List.length ht.symm
      _ ≤ (stripSpace (nameTail n)).length := (strip_within isSlash _).length_le
  exact (strip_within isSpace _).eq_of_length
    (le_antisymm (strip_within isSpace _).length_le hlen)

end Paths

/-- The path that the registry binds for a partition and a name. -/
def boundPath (partition name : Text) : Text :=
  let rel := trimPath (trimPath name)
  trimPath (if isUnder partition rel then rel else partition ++ '/' :: rel)

theorem stripSpace_noSlash_trim {p : Text} (h : '/' ∉ p) :
    lead isSpace isSlash (stripSpace p) = stripSpace p := by
  rw [lead_noSlash (noSlash_stripSpace h)]
  unfold stripSpace strip
  rw [← rdropWhile_dropWhile, List.dropWhile_idempotent]

/-- The registry binds the path that was checked exactly when it splits cleanly. -/
theorem Cut.boundPath_eq_iff {r p n : Text} (h : Cut r p n) :
    boundPath (stripSpace p) (trimPath n) = trimPath r ↔ SplitsCleanly (trimPath r) := by
  rw [h.splitsCleanly_iff, h.trimPath_eq]
  have hn : trimPath n = lead isSpace isSlash (nameTail n) := trim_eq_lead_trail _ _ n
  have hrel : (trimPath (trimPath (trimPath n))).length ≤ (trimPath n).length :=
    (length_trim_le _ _ _).trans (length_trim_le _ _ _)
  have hname : (trimPath n).length ≤ (nameTail n).length := by
    rw [hn]
    exact length_lead_le _ _ _
  have hpart : (stripSpace p).length ≤ (p.dropWhile isSpace).length :=
    (List.rdropWhile_prefix isSpace _).length_le
  constructor
  · intro heq
    unfold boundPath at heq
    generalize hrel' : trimPath (trimPath (trimPath n)) = rel at heq hrel
    by_cases hcase : isUnder (stripSpace p) rel = true
    · -- the shortcut binds fewer characters than were checked
      have hlen := congrArg List.length heq
      have htrim := length_trim_le isSpace isSlash rel
      simp only [hcase, if_true, trimPath, List.length_append, List.length_cons] at hlen
      omega
    · simp only [hcase, if_false, Bool.false_eq_true] at heq
      -- nothing was trimmed, or the bound path would be too short
      have htrim : trimPath (stripSpace p ++ '/' :: rel) = stripSpace p ++ '/' :: rel := by
        refine trim_eq_self_of_length _ _ ?_
        have hlen := congrArg List.length heq
        simp only [trimPath, List.length_append, List.length_cons] at hlen ⊢
        omega
      rw [htrim] at heq
      obtain ⟨hp, hr⟩ := append_slash_inj (noSlash_stripSpace h.noSlash) h.front_noSlash heq
      have hlead : trimPath n = nameTail n := by
        rw [hn]
        refine lead_eq_self_of_length _ _ ?_
        rw [← hn, ← hr]
        exact hrel
      have ht : trimPath (nameTail n) = nameTail n := by
        refine trim_eq_self_of_length _ _ ?_
        have hinner := length_trim_le isSpace isSlash (trimPath (nameTail n))
        have hr' : trimPath (trimPath (nameTail n)) = nameTail n := by
          rw [← hlead, hrel', hr, hlead]
        calc (nameTail n).length = (trimPath (trimPath (nameTail n))).length := by rw [hr']
          _ ≤ (trimPath (nameTail n)).length := hinner
      refine ⟨hp, h.trimPath_nameTail.mp ht, ?_⟩
      rw [← hp, ← hr]
      simpa using hcase
  · rintro ⟨hp, hs, hunder⟩
    have ht := h.trimPath_nameTail.mpr hs
    have hname' : trimPath n = nameTail n := by
      rw [hn, lead_of_trim _ _ ht]
    unfold boundPath
    simp only [hname', ht, hp, hunder, Bool.false_eq_true, if_false]
    refine trim_of_ends _ _ ?_ ?_
    · rw [lead_append]
      · rw [← hp, stripSpace_noSlash_trim h.noSlash]
      · rw [← hp, stripSpace_noSlash_trim h.noSlash]
        exact h.partition
    · have htail := trail_of_trim _ _ ht
      rw [show p.dropWhile isSpace ++ '/' :: nameTail n =
        (p.dropWhile isSpace ++ ['/']) ++ nameTail n by simp, trail_append, htail]
      rw [htail]
      exact h.nameTail_ne_nil

/-! ### Writes -/

/-- What the guard finds in an alias: a bucket, and a path that it cuts in two. -/
theorem parseAlias_eq_ok {aliasName : Text} {parsed : ParsedAlias}
    (h : parseAlias aliasName = .ok parsed) :
    parsed.space ∈ storageBuckets ∧
      parsed.qualified = parsed.space ++ '/' :: trimPath parsed.relative ∧
      ∃ p n, Cut parsed.relative p n ∧ parsed.partitionId = stripSpace p ∧
        parsed.aliasInPartition = trimPath n := by
  simp only [parseAlias, except_bind_eq_ok, raiseIf_eq_ok, except_pure_eq_ok, not_or] at h
  obtain ⟨_, _, space, hspace, relative, hrel, _, ⟨hsep, _⟩, pid, hpid, name, hname, qualified, hq,
    rfl⟩ := h
  obtain ⟨_, hmem⟩ := normalizeBucket_eq_ok.mp hspace
  obtain ⟨_, _, hsegments⟩ := normalizeRelativeAlias_eq_ok.mp hrel
  obtain ⟨hpid', hpne, _⟩ := normalizeRelativeAlias_eq_ok.mp hpid
  obtain ⟨hname', hnne, _⟩ := normalizeRelativeAlias_eq_ok.mp hname
  generalize hcut : partitionSlash relative = cut at *
  obtain ⟨p, sep, n⟩ := cut
  obtain rfl : sep = true := by simpa using hsep
  obtain ⟨heq, hno⟩ := partitionSlash_true hcut
  have hp : stripSpace p = pid := by rw [← trimPath_noSlash hno, hpid']
  refine ⟨hmem, ?_, p, n, ⟨heq, hno, hsegments, hp ▸ hpne, hname' ▸ hnne⟩, hp.symm, hname'.symm⟩
  obtain ⟨b, path, hb, hpath, rfl⟩ := qualifiedAlias_eq_ok.mp hq
  obtain rfl : space = b := by simpa [normalizeBucket_of_mem hmem] using hb
  rw [(normalizeRelativeAlias_eq_ok.mp hpath).1]

/-- The key that the registry builds from a partition and a name. -/
theorem scoped_key_eq {space pid n path key : Text} (hmem : space ∈ storageBuckets)
    (hpid : '/' ∉ pid) (hfix : stripSpace pid = pid) (hpath : aliasUnderPartition pid n = .ok path)
    (hkey : qualifiedAlias space path = .ok key) :
    key = space ++ '/' ::
      trimPath (if isUnder pid (trimPath n) then trimPath n else pid ++ '/' :: trimPath n) := by
  simp only [aliasUnderPartition, except_bind_eq_ok, except_pure_eq_ok] at hpath
  obtain ⟨rel, hrel, root, hroot, rfl⟩ := hpath
  obtain ⟨rfl, -, -⟩ := normalizeRelativeAlias_eq_ok.mp hrel
  obtain ⟨hroot', -, -⟩ := normalizeRelativeAlias_eq_ok.mp hroot
  obtain rfl : pid = root := by rw [← hroot', trimPath_noSlash hpid, hfix]
  obtain ⟨b, path, hb, hpath, rfl⟩ := qualifiedAlias_eq_ok.mp hkey
  obtain rfl : space = b := by simpa [normalizeBucket_of_mem hmem] using hb
  rw [(normalizeRelativeAlias_eq_ok.mp hpath).1]

/-- The keys of the aliases bound to an asset. -/
def Registry.boundKeys (r : Registry) (id : Text) : Set Text :=
  { key | ∃ b, r.aliases.get key = some b ∧ b.assetId = some id }

/-- The new asset is bound to the checked key alone, and its keys lie within the scope. -/
structure Confined (cap : Capability) (qualified : Text) (r : Registry) (a : Asset) : Prop where
  bound : r.boundKeys a.assetId = {qualified}
  aliases : a.aliases = {qualified}
  inScope : ∀ key ∈ r.boundKeys a.assetId,
    (stripSlash cap.scopePrefix).splitOn '/' <+: key.splitOn '/'

theorem stripSlash_qualified {b path : Text} (hb : b ∈ storageBuckets) (hne : trimPath path ≠ []) :
    stripSlash (b ++ '/' :: trimPath path) = b ++ '/' :: trimPath path := by
  have hfront : (b ++ '/' :: trimPath path).dropWhile isSlash = b ++ '/' :: trimPath path := by
    have hall : ∀ b ∈ storageBuckets, ∀ rest : Text, (b ++ rest).dropWhile isSlash = b ++ rest := by
      simp [storageBuckets, isSlash]
    exact hall b hb _
  have hback : (trimPath path).rdropWhile isSlash = trimPath path :=
    List.rdropWhile_idempotent isSlash _
  unfold stripSlash strip
  rw [hfront, show b ++ '/' :: trimPath path = (b ++ ['/']) ++ trimPath path by simp,
    rdropWhile_append, hback, if_neg hne]

theorem boundKeys_set {aliases : Dict Text AliasBinding} {r : Registry} {key id : Text}
    {b : AliasBinding} (hr : r.aliases = aliases.set key b) (hb : b.assetId = some id)
    (unused : ∀ key b, aliases.get key = some b → b.assetId ≠ some id) :
    r.boundKeys id = {key} := by
  ext k
  simp only [Registry.boundKeys, hr, Dict.get_set, Set.mem_ofPred_eq, Set.mem_singleton_iff]
  constructor
  · rintro ⟨b', hget, hid⟩
    split at hget
    · assumption
    · exact absurd hid (unused k b' hget)
  · rintro rfl
    exact ⟨b, by simp, hb⟩

/-- What a write leaves in the registry: a binding of `key` to the new asset, which is available. -/
structure WriteEffect (env : Env) (newId space : Text) (ttl : Option Int) (key : Text)
    (g g' : GuardState) (a : Asset) : Prop where
  binds : ∃ b : AliasBinding, b.assetId = some newId ∧ g'.reg.aliases = g.reg.aliases.set key b
  stores : ∃ a0, g'.reg.assets = (g.reg.assets.set newId a0).set newId a
  assetId : a.assetId = newId
  aliases : a.aliases = {key}
  state : a.state = .available
  expiry : ∃ reading, expiryFor env space ttl (g.clock reading) = .ok a.expiresAt

/-- The key of a write is the one that the registry builds from the partition and the name. -/
theorem write_effect {env : Env} {g g' : GuardState} {newId aliasName : Text} {cap : Capability}
    {data : List UInt8} {opts : WriteOptions} {a : Asset}
    (h : alone (writeObject env newId cap aliasName data opts) g = .ok a g') :
    ∃ parsed p n key, parseAlias aliasName = .ok parsed ∧
      cap.allows .write parsed.qualified (g.clock 0) = true ∧
      parsed.space ∈ storageBuckets ∧ Cut parsed.relative p n ∧
      parsed.qualified = parsed.space ++ '/' :: trimPath parsed.relative ∧
      key = parsed.space ++ '/' :: boundPath (stripSpace p) (trimPath n) ∧
      WriteEffect env newId parsed.space opts.ttlSeconds key g g' a := by
  obtain ⟨parsed, pending, s1, s2, g1, hparse, hallow, hreg, hclock, hreserve, hcommit, hfinal⟩ :=
    writeObject_eq_ok h
  obtain ⟨hmem, hq, p, n, hcut, hpid, hname⟩ := parseAlias_eq_ok hparse
  obtain ⟨n1, path, key, now, reading, hnow, hspace, hpartition, hn1, hpath, hkey, -, haliases,
    hassets, hid, hkeys, -, hexpiry⟩ := reserveAsset_single rfl hreserve
  obtain ⟨a0, now', hget, -, rfl, hsame, hstored⟩ := commitAsset_eq_ok hcommit
  obtain rfl : pending = a0 := by
    rw [hassets, hid, Dict.get_set_self] at hget
    exact Option.some.inj hget
  have hspace' : pending.space = parsed.space := by
    have := normalizeBucket_of_mem hmem
    rw [normalizeSpace, this] at hspace
    exact (Except.ok.inj hspace).symm
  have hno := noSlash_stripSpace hcut.noSlash
  have hfix : stripSpace (stripSpace p) = stripSpace p := strip_strip isSpace p
  have hpartition' : pending.partitionId = stripSpace p := by
    obtain ⟨ht, -, -⟩ := normalizeRelativeAlias_eq_ok.mp hpartition
    simp only [hpid] at ht
    rw [← ht, trimPath_noSlash hno, hfix]
  obtain ⟨rfl, -, -⟩ := normalizeRelativeAlias_eq_ok.mp hn1
  rw [hspace'] at hkey haliases hexpiry
  rw [hpartition'] at hpath
  have hkey' := scoped_key_eq hmem hno hfix hpath hkey
  refine ⟨parsed, p, n, key, hparse, hallow, hmem, hcut, hq, ?_, ?_, ?_, hid, hkeys, rfl, ?_⟩
  · rw [hkey', hname]
    rfl
  · refine ⟨newBinding parsed.space path newId cap.callerServiceId opts.mutable now, rfl, ?_⟩
    rw [hfinal, hsame, haliases, ← hreg]
  · refine ⟨pending, ?_⟩
    rw [hfinal, hstored, hassets, hid, ← hreg]
  · refine ⟨reading + 2, ?_⟩
    have : now = g.clock (reading + 2) := by
      rw [hnow]
      exact congrFun hclock reading
    rw [← this]
    exact hexpiry

theorem WriteEffect.boundKeys {env : Env} {newId space key : Text} {ttl : Option Int}
    {g g' : GuardState} {a : Asset} (h : WriteEffect env newId space ttl key g g' a)
    (unused : ∀ key b, g.reg.aliases.get key = some b → b.assetId ≠ some newId) :
    g'.reg.boundKeys a.assetId = {key} := by
  obtain ⟨b, hb, haliases⟩ := h.binds
  rw [h.assetId]
  exact boundKeys_set haliases hb unused

/-- A write that succeeds is confined to the checked key exactly when the checked path splits
cleanly. -/
theorem write_confined_iff {env : Env} {g g' : GuardState} {newId aliasName : Text}
    {cap : Capability} {data : List UInt8} {opts : WriteOptions} {a : Asset}
    (unused : ∀ key b, g.reg.aliases.get key = some b → b.assetId ≠ some newId)
    (h : alone (writeObject env newId cap aliasName data opts) g = .ok a g') :
    ∃ parsed path, parseAlias aliasName = .ok parsed ∧
      parsed.qualified = parsed.space ++ '/' :: path ∧
      (Confined cap parsed.qualified g'.reg a ↔ SplitsCleanly path) := by
  obtain ⟨parsed, p, n, key, hparse, hallow, hmem, hcut, hq, rfl, effect⟩ := write_effect h
  have hbound := effect.boundKeys unused
  have haliases := effect.aliases
  refine ⟨parsed, trimPath parsed.relative, hparse, hq, ?_⟩
  rw [← hcut.boundPath_eq_iff]
  constructor
  · intro hconf
    have heq := hconf.bound
    rw [hbound, Set.singleton_eq_singleton_iff, hq] at heq
    exact (append_slash_inj (bucket_no_slash hmem) (bucket_no_slash hmem) heq).2
  · intro heq
    rw [heq, ← hq] at hbound haliases
    refine ⟨hbound, haliases, fun k hk => ?_⟩
    obtain rfl : k = parsed.qualified := by simpa [hbound] using hk
    simp only [Capability.allows, Bool.and_eq_true] at hallow
    have hunder := isUnder_segments.mp hallow.2
    rwa [hq, stripSlash_qualified hmem hcut.trimPath_ne_nil, ← hq] at hunder

/-- A guard over an empty registry. -/
def emptyGuard : GuardState :=
  { reg := .initial 0, store := .empty, ledger := .empty, clock := fun _ => 0 }

/-- A capability of the fetcher to write under a scope. -/
def fetcherGrant (scope : Text) (h : validateScope scope = .ok ()) : Capability :=
  { capabilityId := "c1".toList, operation := .write, scopePrefix := scope, expiresAt := 60
    callerServiceId := "fetcher".toList, scope_valid := h }

theorem plainScope_valid : validateScope "cache/m".toList = .ok () := by decide

theorem write_confined_iff_plain :
    ∃ a g', alone (writeObject plainEnv "a1".toList (fetcherGrant "cache/m".toList (by decide))
        "cache/m/x".toList []) emptyGuard = .ok a g' ∧
      Confined (fetcherGrant "cache/m".toList (by decide)) "cache/m/x".toList g'.reg a := by
  obtain ⟨a, g', h, -⟩ := exists_ok_of_returns
    (show returns (fun _ _ => true) (alone (writeObject plainEnv "a1".toList
    (fetcherGrant "cache/m".toList (by decide)) "cache/m/x".toList []) emptyGuard) = true by
      decide +kernel)
  obtain ⟨parsed, path, hparse, hq, hiff⟩ := write_confined_iff (fun _ _ h => by cases h) h
  obtain rfl :
      parsed = ⟨"cache".toList, "m/x".toList, "m".toList, "x".toList, "cache/m/x".toList⟩ :=
    Except.ok.inj (hparse.symm.trans (by decide))
  obtain rfl : "m/x".toList = path := by
    exact List.append_cancel_left (show "cache/".toList ++ "m/x".toList = "cache/".toList ++
      path from hq)
  exact ⟨a, g', h, hiff.mpr (by decide)⟩

/-- A name that starts with its partition is bound outside the scope that was checked. -/
theorem write_escapes_scope :
    ∃ a g', alone (writeObject plainEnv "a1".toList
        (fetcherGrant "cache/m/m".toList (by decide)) "cache/m/m/x".toList []) emptyGuard =
          .ok a g' ∧
      (∃ parsed, parseAlias "cache/m/m/x".toList = .ok parsed ∧
        parsed.qualified = "cache/m/m/x".toList ∧ g'.reg.boundKeys a.assetId ≠ {parsed.qualified}) ∧
      g'.reg.boundKeys a.assetId = {"cache/m/x".toList} ∧
      isSamePathOrChild "cache/m/x".toList "cache/m/m".toList = false := by
  obtain ⟨a, g', h, -⟩ := exists_ok_of_returns
    (show returns (fun _ _ => true) (alone (writeObject plainEnv "a1".toList
    (fetcherGrant "cache/m/m".toList (by decide)) "cache/m/m/x".toList []) emptyGuard) = true by
      decide +kernel)
  obtain ⟨parsed, p, n, key, hparse, -, -, hcut, -, rfl, effect⟩ := write_effect h
  have hbound := effect.boundKeys (fun _ _ h => by cases h)
  obtain rfl : parsed =
      ⟨"cache".toList, "m/m/x".toList, "m".toList, "m/x".toList, "cache/m/m/x".toList⟩ :=
    Except.ok.inj (hparse.symm.trans (by decide))
  have hp := append_slash_inj (a := "m".toList) (b := "m/x".toList) (by decide) hcut.noSlash hcut.eq
  have hbound' : g'.reg.boundKeys a.assetId = {"cache/m/x".toList} := by
    rw [hbound, ← hp.1, ← hp.2]
    rfl
  refine ⟨a, g', h, ⟨_, hparse, rfl, ?_⟩, hbound', by decide⟩
  rw [hbound', ne_eq, Set.singleton_eq_singleton_iff]
  decide

end AssetStore
