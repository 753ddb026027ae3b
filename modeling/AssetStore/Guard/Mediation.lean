import AssetStore.Guard.Confinement
import AssetStore.Registry.Accounting
import AssetStore.Registry.Change

/-! Which asset a read returns. The guard checks the alias after two passes of the normalization and
the registry looks it up after a third, so the two keys differ where the second pass still leaves
whitespace at the end of the path. -/

namespace AssetStore

open Lib

/-- The asset bound under a key. -/
def Registry.assetUnder (r : Registry) (key : Text) : Option Asset :=
  ((r.aliases.get key).bind fun b => b.assetId).bind r.assets.get

/-- The asset is the one under the key that was checked, and so it is bound within the scope. -/
structure Mediated (cap : Capability) (qualified : Text) (r : Registry) (a : Asset) : Prop where
  bound : r.assetUnder qualified = some a
  inScope : ∃ key, r.assetUnder key = some a ∧ isSamePathOrChild key cap.scopePrefix = true

/-- One more pass leaves the path as it is, or the registry binds one asset under both keys. -/
def LooksUpChecked (r : Registry) (space path : Text) : Prop :=
  trimPath path = path ∨
    r.assetUnder (space ++ '/' :: path) = r.assetUnder (space ++ '/' :: trimPath path)

section Reads

variable {g g' : GuardState} {cap : Capability} {aliasName : Text} {a : Asset}
  {location : ObjectStoreLocation} {s s' : Session}

theorem resolveAlias_eq_ok {space name : Text} (h : resolveAlias space name s = .ok a s') :
    ∃ key, aliasKey space name = .ok key ∧ s.reg.assetUnder key = some a := by
  simp only [resolveAlias, bind_eq_ok, getBinding_eq_key, attempt_eq_ok, raiseNaming_eq_ok,
    getAsset_eq_ok, pure_eq_ok] at h
  obtain ⟨b, _, ⟨key, hkey, hget, rfl⟩, _, _, ⟨hbound, rfl⟩, a', _, ⟨hasset, rfl⟩, _, _, -, _,
    _, -, _, _, -,
    rfl, -⟩ := h
  obtain ⟨id, hid⟩ := Option.ne_none_iff_exists'.mp hbound
  refine ⟨key, hkey, ?_⟩
  rw [hid] at hasset
  simpa [Registry.assetUnder, hget, hid] using hasset

/-- The key of the lookup, from the path that was checked. -/
theorem aliasKey_relative {space relativeAlias key : Text} (hspace : space ∈ storageBuckets)
    (h : aliasKey space relativeAlias = .ok key) :
    key = space ++ '/' :: trimPath (trimPath relativeAlias) := by
  simp only [aliasKey, except_bind_eq_ok] at h
  obtain ⟨bucket, hbucket, path, hpath, hkey⟩ := h
  obtain rfl : space = bucket := Except.ok.inj ((normalizeBucket_of_mem hspace).symm.trans hbucket)
  obtain ⟨rfl, -, -⟩ := normalizeRelativeAlias_eq_ok.mp hpath
  obtain ⟨bucket, path, hbucket, hpath, rfl⟩ := qualifiedAlias_eq_ok.mp hkey
  obtain rfl : space = bucket := Except.ok.inj ((normalizeBucket_of_mem hspace).symm.trans hbucket)
  obtain ⟨rfl, -, -⟩ := normalizeRelativeAlias_eq_ok.mp hpath
  rfl

/-- A resolved read: what was checked, and what was looked up. -/
theorem resolveForRead_eq_ok (h : alone (resolveForRead cap aliasName) g = .ok (a, location) g') :
    ∃ parsed path, parseAlias aliasName = .ok parsed ∧
      parsed.qualified = parsed.space ++ '/' :: path ∧
      isSamePathOrChild parsed.qualified cap.scopePrefix = true ∧
      g.reg.assetUnder (parsed.space ++ '/' :: trimPath path) = some a ∧
      ObjectStoreLocation.forAsset a.space a.partitionId a.assetId = .ok location ∧
      g'.store = g.store := by
  simp only [resolveForRead, alone_bind, bind_eq_ok, alone_registry, liftRegistry_eq_ok,
    alone_check, attempt_eq_ok, alone_pure, pure_eq_ok, Prod.mk.injEq] at h
  obtain ⟨parsed, g1, hauth, _, _, ⟨s1, hresolve, rfl⟩, _, _, ⟨hlocation, rfl⟩, ⟨rfl, rfl⟩, rfl⟩ :=
    h
  obtain ⟨hparse, hallow, hreg, -, hstore⟩ := authorize_eq_ok hauth
  obtain ⟨hspace, hq, -⟩ := parseAlias_eq_ok hparse
  obtain ⟨key, hkey, hasset⟩ := resolveAlias_eq_ok hresolve
  obtain rfl := aliasKey_relative hspace hkey
  simp only [Capability.allows, Bool.and_eq_true] at hallow
  refine ⟨parsed, trimPath parsed.relative, hparse, hq, hallow.2, ?_, hlocation, hstore⟩
  rw [← hreg]
  exact hasset

theorem mediated_iff {qualified space path : Text} (hq : qualified = space ++ '/' :: path)
    (hscope : isSamePathOrChild qualified cap.scopePrefix = true)
    (found : g.reg.assetUnder (space ++ '/' :: trimPath path) = some a) :
    Mediated cap qualified g.reg a ↔ LooksUpChecked g.reg space path := by
  constructor
  · intro h
    refine .inr ?_
    rw [found, ← hq]
    exact h.bound
  · intro h
    have hbound : g.reg.assetUnder qualified = some a := by
      rw [hq]
      rcases h with hfixed | hsame
      · rwa [hfixed] at found
      · rw [hsame, found]
    exact ⟨hbound, qualified, hbound, hscope⟩

/-- A read returns the asset, or the bytes of the asset, under the checked key exactly when the
lookup is of that key. -/
theorem read_mediated_iff :
    (∀ a location, alone (resolveForRead cap aliasName) g = .ok (a, location) g' →
      ∃ parsed path, parseAlias aliasName = .ok parsed ∧
        parsed.qualified = parsed.space ++ '/' :: path ∧
        (Mediated cap parsed.qualified g.reg a ↔ LooksUpChecked g.reg parsed.space path)) ∧
      ∀ data, alone (readBytes cap aliasName) g = .ok data g' →
        ∃ parsed path a location, parseAlias aliasName = .ok parsed ∧
          parsed.qualified = parsed.space ++ '/' :: path ∧
          ObjectStoreLocation.forAsset a.space a.partitionId a.assetId = .ok location ∧
          g.store.get location = some data ∧
          (Mediated cap parsed.qualified g.reg a ↔ LooksUpChecked g.reg parsed.space path) := by
  constructor
  · intro a location h
    obtain ⟨parsed, path, hparse, hq, hscope, found, -, -⟩ := resolveForRead_eq_ok h
    exact ⟨parsed, path, hparse, hq, mediated_iff hq hscope found⟩
  · intro data h
    simp only [readBytes, alone_bind, bind_eq_ok] at h
    obtain ⟨⟨a, location⟩, g1, hresolve, bytes, g2, hget, _, _, -, _, _, -, hret⟩ := h
    obtain ⟨rfl, -⟩ := pure_eq_ok.mp hret
    obtain ⟨parsed, path, hparse, hq, hscope, found, hlocation, hstore⟩ :=
      resolveForRead_eq_ok hresolve
    refine ⟨parsed, path, a, location, hparse, hq, hlocation, ?_, mediated_iff hq hscope found⟩
    rw [← hstore]
    simp only [alone_perform, Cmd.sem, getStored] at hget
    cases hstored : g1.store.get location with
    | none => simp [hstored] at hget
    | some d =>
      simp only [hstored, EStateM.Result.ok.injEq] at hget
      rw [hget.1]

end Reads

/-- A guard over the registry with one upload. -/
def uploadedGuard : GuardState :=
  { reg := uploaded, store := .empty, ledger := .empty, clock := fun _ => 2 }

/-- A capability of the fetcher to read under a scope. -/
def readGrant (scope : Text) (h : validateScope scope = .ok ()) : Capability :=
  { capabilityId := "c1".toList, operation := .read, scopePrefix := scope, expiresAt := 60
    callerServiceId := "fetcher".toList, scope_valid := h }

theorem read_mediated_uploaded :
    ∃ a location g', alone (resolveForRead (readGrant "cache/m".toList (by decide))
        "cache/m/x".toList) uploadedGuard = .ok (a, location) g' ∧
      Mediated (readGrant "cache/m".toList (by decide)) "cache/m/x".toList uploadedGuard.reg a := by
  obtain ⟨⟨a, location⟩, g', h, -⟩ := exists_ok_of_returns (show returns (fun _ _ => true)
    (alone (resolveForRead (readGrant "cache/m".toList (by decide)) "cache/m/x".toList)
      uploadedGuard) =
      true by decide +kernel)
  obtain ⟨parsed, path, hparse, hq, hiff⟩ := read_mediated_iff.1 a location h
  obtain rfl :
      parsed = ⟨"cache".toList, "m/x".toList, "m".toList, "x".toList, "cache/m/x".toList⟩ :=
    Except.ok.inj (hparse.symm.trans (by decide))
  obtain rfl : "m/x".toList = path := by
    exact List.append_cancel_left (show "cache/".toList ++ "m/x".toList = "cache/".toList ++
      path from hq)
  exact ⟨a, location, g', h, hiff.mpr (.inl (by decide))⟩

/-- A last segment of whitespace makes the guard check one key and read another, which lies outside
the scope. -/
theorem read_escapes_scope :
    ∃ a location g', alone (resolveForRead (readGrant "cache/m/x ".toList (by decide))
        "cache/m/x / / /".toList) uploadedGuard = .ok (a, location) g' ∧
      (∃ parsed, parseAlias "cache/m/x / / /".toList = .ok parsed ∧
        parsed.qualified = "cache/m/x ".toList ∧
          uploadedGuard.reg.assetUnder parsed.qualified ≠ some a) ∧
      ∀ key, uploadedGuard.reg.assetUnder key = some a →
        isSamePathOrChild key "cache/m/x ".toList = false := by
  obtain ⟨⟨a, location⟩, g', h, -⟩ := exists_ok_of_returns (show returns (fun _ _ => true)
    (alone (resolveForRead (readGrant "cache/m/x ".toList (by decide)) "cache/m/x / / /".toList)
      uploadedGuard) = true by decide +kernel)
  have hkeys : uploaded.aliases.keys = ["cache/m/x".toList] := by decide +kernel
  have honly : ∀ key, uploadedGuard.reg.assetUnder key = some a → key = "cache/m/x".toList := by
    intro key hkey
    obtain ⟨id, hid, -⟩ := Option.bind_eq_some_iff.mp hkey
    obtain ⟨b, hb, -⟩ := Option.bind_eq_some_iff.mp hid
    have hmem : key ∈ uploaded.aliases.keys := by
      rw [Dict.mem_keys]
      exact Option.isSome_iff_exists.mpr ⟨b, hb⟩
    simpa [hkeys] using hmem
  have hparse : parseAlias "cache/m/x / / /".toList =
      .ok ⟨"cache".toList, "m/x / ".toList, "m".toList, "x ".toList, "cache/m/x ".toList⟩ := by
        decide
  refine ⟨a, location, g', h, ⟨_, hparse, rfl, fun hbound => ?_⟩, fun key hkey => ?_⟩
  · exact absurd (honly _ hbound) (by decide)
  · rw [honly key hkey]
    decide

end AssetStore
