import AssetStore.Lib.Fallible
import AssetStore.Lib.Segments
import AssetStore.Lib.Trim

/-! Strings, domain errors, and the alias path rules that the registry, the guard and the object
store share. A string is the list of its code points. -/

namespace AssetStore

open Lib

/-- A string of the source, as its code points. -/
abbrev Text := List Char

/-- Named here, so that every test of membership among texts finds this instance. -/
instance Text.lawful : LawfulBEq Text := inferInstance

/-- What is said of all characters of a text is decided along the text, not over all characters. -/
instance (priority := high) Text.decidableForall (s : Text) (p : Char → Prop) [DecidablePred p] :
    Decidable (∀ c ∈ s, p c) :=
  List.decidableBAll p s

instance (priority := high) Text.decidableForallOption (o : Option Char) (p : Char → Prop)
    [DecidablePred p] :
    Decidable (∀ c ∈ o, p c) :=
  decidable_of_iff (∀ c ∈ o.toList, p c) (by simp)

/-- Which ceiling a refused commit would breach. -/
inductive QuotaScope
  | partition
  | bucket
  deriving DecidableEq, Repr

/-- The classes of `errors.py`, and the exceptions of other kinds that maintenance can raise. -/
inductive ErrorClass
  | serviceAuth
  | validation
  | aliasConflict
  | aliasNotFound
  | aliasImmutable
  | assetNotFound
  | objectNotFound
  | presignNotSupported
  | checksumMismatch
  | capabilityDenied
  | capabilityAlreadyConsumed
  | capabilityCapacity
  | invalidStateTransition
  | assetExpired
  | assetDeleted
  | capacityExceeded
  | quotaExceeded (scope : QuotaScope)
  | uploadTooLarge
  | registryUnavailable
  | workCapacity
  | capabilityRate (retryAfter : Nat)
  | runtimeError
  | keyError
  | overflowError
  deriving DecidableEq, Repr

/-- A raised error: its class, and its message with the interpolated values in order of their
placeholders. -/
structure Err where
  cls : ErrorClass
  message : String
  args : List Text := []
  deriving DecidableEq, Repr

/-- The characters that `str.strip` without an argument removes. -/
def isSpace (c : Char) : Bool :=
  (9 ≤ c.toNat && c.toNat ≤ 13) || (28 ≤ c.toNat && c.toNat ≤ 32) || c.toNat == 0x85 ||
    c.toNat == 0xA0 || c.toNat == 0x1680 || (0x2000 ≤ c.toNat && c.toNat ≤ 0x200A) ||
    c.toNat == 0x2028 || c.toNat == 0x2029 || c.toNat == 0x202F || c.toNat == 0x205F ||
    c.toNat == 0x3000

def isSlash (c : Char) : Bool := c == '/'

/-- `s.strip()`. -/
def stripSpace (s : Text) : Text := strip isSpace s

/-- `s.strip("/")`. -/
def stripSlash (s : Text) : Text := strip isSlash s

/-- `s.partition("/")`: the part before the first slash, whether there is one, and the rest. -/
def partitionSlash (s : Text) : Text × Bool × Text :=
  match s.dropWhile (fun c => !isSlash c) with
  | [] => (s, false, [])
  | _ :: rest => (s.takeWhile (fun c => !isSlash c), true, rest)

/-! ### `paths.py` -/

/-- `STORAGE_BUCKETS`. -/
def storageBuckets : List Text := ["cache".toList, "tmp".toList, "users".toList, "results".toList]

/-- Validates and returns a storage bucket name. -/
def normalizeBucket (bucket : Text) : Except Err Text := do
  let name := stripSlash (stripSpace bucket)
  raiseIf (name = []) { cls := .validation, message := "bucket must be non-empty" }
  raiseIf ('/' ∈ name)
    { cls := .validation, message := "bucket must not contain '/': %r", args := [bucket] }
  raiseIf (name = ".".toList ∨ name = "..".toList)
    { cls := .validation, message := "invalid bucket: %r", args := [bucket] }
  raiseIf (name ∉ storageBuckets)
    { cls := .validation
      message := "unknown bucket %r; expected one of ['cache', 'results', 'tmp', 'users']"
      args := [name] }
  return name

def normalizeSpace (space : Text) : Except Err Text := normalizeBucket space

/-- The path without its outer whitespace and, after that, without its outer slashes. -/
def normalizeRelativeAlias (aliasName : Text) : Except Err Text := do
  let a := stripSlash (stripSpace aliasName)
  raiseIf (a = []) { cls := .validation, message := "alias path must be non-empty" }
  raiseIf (∃ part ∈ a.splitOn '/', part = [] ∨ part = ".".toList ∨ part = "..".toList)
    { cls := .validation, message := "invalid alias path segment in %r", args := [aliasName] }
  return a

def normalizePartitionId (partitionId : Text) : Except Err Text :=
  normalizeRelativeAlias partitionId

/-- The registry key `bucket/path` of an alias. -/
def qualifiedAlias (space aliasName : Text) : Except Err Text := do
  let bucket ← normalizeSpace space
  let path ← normalizeRelativeAlias aliasName
  return bucket ++ '/' :: path

/-! ### `storage.py` -/

/-- The object key `partition/assets/asset_id`. -/
def buildStorageKey (partitionId assetId : Text) : Except Err Text := do
  let pid ← normalizePartitionId partitionId
  let aid := stripSpace assetId
  raiseIf (aid = []) { cls := .validation, message := "asset_id must be non-empty" }
  return pid ++ "/assets/".toList ++ aid

/-- Where the bytes of an asset live. -/
structure ObjectStoreLocation where
  bucket : Text
  key : Text
  deriving DecidableEq, Repr

def ObjectStoreLocation.forAsset (space partitionId assetId : Text) :
    Except Err ObjectStoreLocation := do
  let bucket ← normalizeBucket space
  let key ← buildStorageKey partitionId assetId
  return { bucket, key }

/-! ### Scoping an alias by its partition (`registry.py`) -/

/-- `path == root or path.startswith(root + "/")`. -/
def isUnder (root path : Text) : Bool := path == root || (root ++ ['/']).isPrefixOf path

/-- The alias path under the partition, unchanged when it already starts with the partition. -/
def aliasUnderPartition (partitionId relativeAlias : Text) : Except Err Text := do
  let rel ← normalizeRelativeAlias relativeAlias
  let root ← normalizePartitionId partitionId
  return if isUnder root rel then rel else root ++ '/' :: rel

/-- The first segment of a scoped alias. -/
def partitionFromScopedAlias (scopedAlias : Text) : Except Err Text :=
  normalizePartitionId (partitionSlash scopedAlias).1

/-! ### Facts about paths -/

/-- A segment that no alias path may contain. -/
def BadSegment (part : Text) : Prop := part = [] ∨ part = ".".toList ∨ part = "..".toList

theorem isSlash_of_isSpace (c : Char) (h : isSpace c = true) : isSlash c = false := by
  by_contra hc
  obtain rfl : c = '/' := by simpa [isSlash] using hc
  exact absurd h (by decide)

/-- One pass of the alias normalization, without its checks. -/
def trimPath (s : Text) : Text := trim isSpace isSlash s

theorem normalizeRelativeAlias_eq_ok {s r : Text} :
    normalizeRelativeAlias s = .ok r ↔
      trimPath s = r ∧ r ≠ [] ∧ ∀ part ∈ r.splitOn '/', ¬BadSegment part := by
  simp only [normalizeRelativeAlias, except_bind_eq_ok, raiseIf_eq_ok,
    except_pure_eq_ok, BadSegment]
  constructor
  · rintro ⟨_, hne, _, hseg, rfl⟩
    exact ⟨rfl, hne, fun part hp hbad => hseg ⟨part, hp, hbad⟩⟩
  · rintro ⟨rfl, hne, hseg⟩
    refine ⟨(), hne, (), ?_, rfl⟩
    rintro ⟨part, hp, hbad⟩
    exact hseg part hp hbad

theorem normalizeRelativeAlias_error {s : Text} {e : Err}
    (h : normalizeRelativeAlias s = .error e) :
    e.cls = .validation := by
  simp only [normalizeRelativeAlias, except_bind_eq_error, raiseIf_eq_error,
    except_pure_ne_error] at h
  rcases h with ⟨-, rfl⟩ | ⟨_, _, ⟨-, rfl⟩ | ⟨_, _, h⟩⟩
  · rfl
  · rfl
  · exact h.elim

theorem normalizeBucket_eq_ok {s r : Text} :
    normalizeBucket s = .ok r ↔ trimPath s = r ∧ r ∈ storageBuckets := by
  simp only [normalizeBucket, except_bind_eq_ok, raiseIf_eq_ok, except_pure_eq_ok]
  constructor
  · rintro ⟨_, _, _, _, _, _, _, hmem, rfl⟩
    exact ⟨rfl, by simpa using hmem⟩
  · rintro ⟨rfl, hmem⟩
    have hall : ∀ b ∈ storageBuckets, b ≠ [] ∧ '/' ∉ b ∧ ¬(b = ".".toList ∨ b = "..".toList) := by
      decide
    obtain ⟨h1, h2, h3⟩ := hall _ hmem
    exact ⟨(), h1, (), h2, (), h3, (), not_not_intro hmem, rfl⟩

theorem bucket_trimPath {b : Text} (h : b ∈ storageBuckets) : trimPath b = b := by
  have hall : ∀ b ∈ storageBuckets, trimPath b = b := by decide
  exact hall b h

theorem bucket_no_slash {b : Text} (h : b ∈ storageBuckets) : '/' ∉ b := by
  have hall : ∀ b ∈ storageBuckets, '/' ∉ b := by decide
  exact hall b h

/-- Normalizing a bucket name again changes nothing. -/
theorem normalizeBucket_of_mem {b : Text} (h : b ∈ storageBuckets) : normalizeBucket b = .ok b :=
  normalizeBucket_eq_ok.mpr ⟨bucket_trimPath h, h⟩

theorem qualifiedAlias_eq_ok {space path key : Text} :
    qualifiedAlias space path = .ok key ↔
      ∃ b p, normalizeBucket space = .ok b ∧ normalizeRelativeAlias path = .ok p ∧
        b ++ '/' :: p = key := by
  simp [qualifiedAlias, normalizeSpace]

theorem trimPath_noSlash {p : Text} (h : '/' ∉ p) : trimPath p = stripSpace p :=
  trim_eq_strip fun c hc => by
    have : c ≠ '/' := fun e => h (e ▸ hc)
    simp [isSlash, this]

theorem partitionSlash_append {a b : Text} (h : '/' ∉ a) :
    partitionSlash (a ++ '/' :: b) = (a, true, b) := by
  have hall : ∀ c ∈ a, (!isSlash c) = true := by
    intro c hc
    have : c ≠ '/' := fun e => h (e ▸ hc)
    simp [isSlash, this]
  have hd : (a ++ '/' :: b).dropWhile (fun c => !isSlash c) = '/' :: b := by
    rw [List.dropWhile_append_of_pos hall]
    simp [isSlash]
  have ht : (a ++ '/' :: b).takeWhile (fun c => !isSlash c) = a := by
    rw [List.takeWhile_append_of_pos hall]
    simp [isSlash]
  simp [partitionSlash, hd, ht]

theorem partitionSlash_true {s a b : Text} (h : partitionSlash s = (a, true, b)) :
    s = a ++ '/' :: b ∧ '/' ∉ a := by
  unfold partitionSlash at h
  have hsplit := List.takeWhile_append_dropWhile (p := fun c => !isSlash c) (l := s)
  split at h
  · simp at h
  · rename_i c rest hrest
    simp only [Prod.mk.injEq, true_and] at h
    obtain ⟨rfl, rfl⟩ := h
    have hc : c = '/' := by
      have := List.head?_dropWhile_not (fun c => !isSlash c) s
      rw [hrest] at this
      simpa [isSlash] using this
    subst hc
    refine ⟨by rw [hrest] at hsplit; exact hsplit.symm, fun hmem => ?_⟩
    have := List.mem_takeWhile_imp hmem
    simp [isSlash] at this

theorem partitionSlash_false {s a b : Text} (h : partitionSlash s = (a, false, b)) :
    s = a ∧ '/' ∉ a := by
  unfold partitionSlash at h
  split at h
  · rename_i hnone
    simp only [Prod.mk.injEq, true_and] at h
    obtain ⟨rfl, -⟩ := h
    refine ⟨rfl, fun hmem => ?_⟩
    have := List.dropWhile_eq_nil_iff.mp hnone '/' hmem
    simp [isSlash] at this
  · simp at h

theorem partitionSlash_noSlash (s : Text) : '/' ∉ (partitionSlash s).1 := by
  rcases h : partitionSlash s with ⟨first, found, tail⟩
  cases found with
  | true => exact (partitionSlash_true h).2
  | false => exact (partitionSlash_false h).2

/-- A list splits at its first slash in one way. -/
theorem append_slash_inj {a b c d : Text} (ha : '/' ∉ a) (hc : '/' ∉ c)
    (h : a ++ '/' :: b = c ++ '/' :: d) : a = c ∧ b = d := by
  have := congrArg partitionSlash h
  rw [partitionSlash_append ha, partitionSlash_append hc] at this
  simpa using this

theorem isUnder_iff {root path : Text} :
    isUnder root path = true ↔ path = root ∨ ∃ rest, path = root ++ '/' :: rest := by
  simp only [isUnder, Bool.or_eq_true, beq_iff_eq, List.isPrefixOf_iff_prefix]
  refine or_congr Iff.rfl ⟨fun ⟨rest, h⟩ => ⟨rest, by simpa using h.symm⟩,
    fun ⟨rest, h⟩ => ⟨rest, ?_⟩⟩
  simp [h]

/-- A path is under another when its segments begin with those of the other. -/
theorem isUnder_segments {root path : Text} :
    isUnder root path = true ↔ root.splitOn '/' <+: path.splitOn '/' :=
  isUnder_iff.trans splitOn_prefix_iff.symm

end AssetStore
