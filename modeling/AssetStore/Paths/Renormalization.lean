import AssetStore.Paths

/-! Normalizing a path again. The normalization strips whitespace and after it slashes, each once,
so whitespace that stood behind the outer slashes is left at the ends, and the next pass takes it
away. -/

namespace AssetStore

open Lib

/-- Under the outer slashes there is whitespace: the text matches `^\s*/+\s` or `\s/+\s*$`. -/
def CoversSpace (s : Text) : Prop := Exposes isSpace isSlash s ∨ Exposes isSpace isSlash s.reverse

/-- `normalize_relative_alias`, `n` times. -/
def renormalize : Nat → Text → Except Err Text
  | 0, s => .ok s
  | n + 1, s => do
    let r ← normalizeRelativeAlias s
    renormalize n r

/-- However often a partition and an alias in it are normalized, the paths and keys are the same. -/
structure Stable (space partitionId s : Text) : Prop where
  relative : ∀ r, normalizeRelativeAlias s = .ok r → ∀ n, renormalize n r = .ok r
  qualified : ∀ key, qualifiedAlias space s = .ok key →
    ∃ bucket path, '/' ∉ bucket ∧ key = bucket ++ '/' :: path ∧ qualifiedAlias bucket path = .ok key
  partition : ∀ root, normalizePartitionId partitionId = .ok root →
    normalizePartitionId root = .ok root
  underPartition : ∀ path, aliasUnderPartition partitionId s = .ok path →
    aliasUnderPartition partitionId path = .ok path
  stored : ∀ root assetId key, normalizePartitionId partitionId = .ok root →
    buildStorageKey partitionId assetId = .ok key → buildStorageKey root assetId = .ok key

section

variable {s r root path : Text}

/-- The result of a normalization is accepted and stays as it is exactly when no whitespace was
covered. -/
theorem normalizeRelativeAlias_again_iff (h : normalizeRelativeAlias s = .ok r) :
    normalizeRelativeAlias r = .ok r ↔ ¬CoversSpace s := by
  obtain ⟨rfl, hne, hgood⟩ := normalizeRelativeAlias_eq_ok.mp h
  rw [CoversSpace, not_or, ← trim_trim_iff isSlash_of_isSpace hne, normalizeRelativeAlias_eq_ok]
  exact ⟨fun hagain => hagain.1, fun hsame => ⟨hsame, hne, hgood⟩⟩

theorem renormalize_of_fixed (h : normalizeRelativeAlias r = .ok r) (n : Nat) :
    renormalize n r = .ok r := by
  induction n with
  | zero => rfl
  | succ n ih =>
    rw [renormalize, h]
    exact ih

/-- A path that is a fixed point is one under a partition that is one. -/
theorem normalizeRelativeAlias_under (hroot : normalizeRelativeAlias root = .ok root)
    (hpath : normalizeRelativeAlias path = .ok path) :
    normalizeRelativeAlias (root ++ '/' :: path) = .ok (root ++ '/' :: path) := by
  obtain ⟨htrimRoot, hneRoot, hgoodRoot⟩ := normalizeRelativeAlias_eq_ok.mp hroot
  obtain ⟨htrimPath, hnePath, hgoodPath⟩ := normalizeRelativeAlias_eq_ok.mp hpath
  have hlead : lead isSpace isSlash root = root := lead_of_trim _ _ htrimRoot
  have htrail : trail isSpace isSlash path = path := trail_of_trim _ _ htrimPath
  refine normalizeRelativeAlias_eq_ok.mpr ⟨trim_of_ends _ _ ?_ ?_, by simp, fun part hpart => ?_⟩
  · rw [lead_append (by rwa [hlead]), hlead]
  · rw [show root ++ '/' :: path = (root ++ ['/']) ++
      path by simp, trail_append (by rwa [htrail]), htrail]
  · rw [List.splitOn_append_cons_self, List.mem_append] at hpart
    exact hpart.elim (hgoodRoot part) (hgoodPath part)

theorem aliasUnderPartition_eq_ok {partitionId : Text} :
    aliasUnderPartition partitionId s = .ok path ↔ ∃ rel root, normalizeRelativeAlias s = .ok rel ∧
      normalizePartitionId partitionId = .ok root ∧
        (if isUnder root rel then rel else root ++ '/' :: rel) = path := by
  simp only [aliasUnderPartition, except_bind_eq_ok, except_pure_eq_ok]
  constructor
  · rintro ⟨rel, hrel, root, hroot, hpath⟩
    exact ⟨rel, root, hrel, hroot, hpath⟩
  · rintro ⟨rel, root, hrel, hroot, hpath⟩
    exact ⟨rel, hrel, root, hroot, hpath⟩

/-- Scoping changes nothing more once the path and the partition are fixed points. -/
theorem aliasUnderPartition_again {partitionId : Text}
    (hroot : normalizePartitionId partitionId = .ok root)
    (hfixed : normalizeRelativeAlias root = .ok root) (hrel : normalizeRelativeAlias s = .ok r)
    (hsame : normalizeRelativeAlias r = .ok r) (h : aliasUnderPartition partitionId s = .ok path) :
    aliasUnderPartition partitionId path = .ok path := by
  obtain ⟨rel, root', hrel', hroot', rfl⟩ := aliasUnderPartition_eq_ok.mp h
  obtain rfl := Except.ok.inj (hrel.symm.trans hrel')
  obtain rfl := Except.ok.inj (hroot.symm.trans hroot')
  split
  · rename_i hunder
    exact aliasUnderPartition_eq_ok.mpr ⟨r, root, hsame, hroot, if_pos hunder⟩
  · exact aliasUnderPartition_eq_ok.mpr
      ⟨root ++ '/' :: r, root, normalizeRelativeAlias_under hfixed hsame, hroot,
      if_pos (isUnder_iff.mpr (.inr ⟨r, rfl⟩))⟩

end

/-- Normalizing again changes nothing exactly when neither the alias nor the partition covers
whitespace. -/
theorem stable_iff (space partitionId s : Text) : Stable space partitionId s ↔
    (∀ r, normalizeRelativeAlias s = .ok r → ¬CoversSpace s) ∧
      ∀ root, normalizePartitionId partitionId = .ok root → ¬CoversSpace partitionId := by
  constructor
  · intro h
    refine ⟨fun r hr => (normalizeRelativeAlias_again_iff hr).mp ?_, fun root hroot =>
      (normalizeRelativeAlias_again_iff hroot).mp (h.partition root hroot)⟩
    have honce := h.relative r hr 1
    rw [renormalize] at honce
    obtain ⟨r', hr', hrest⟩ := except_bind_eq_ok.mp honce
    obtain rfl := Except.ok.inj hrest
    exact hr'
  · rintro ⟨halias, hpartition⟩
    have hrelative : ∀ r, normalizeRelativeAlias s = .ok r →
        normalizeRelativeAlias r = .ok r := fun r hr =>
      (normalizeRelativeAlias_again_iff hr).mpr (halias r hr)
    have hroots : ∀ root, normalizePartitionId partitionId = .ok root →
        normalizePartitionId root = .ok root :=
      fun root hroot => (normalizeRelativeAlias_again_iff hroot).mpr (hpartition root hroot)
    refine ⟨fun r hr => renormalize_of_fixed (hrelative r hr), fun key hkey => ?_, hroots,
      fun path hpath => ?_, fun root assetId key hroot hkey => ?_⟩
    · obtain ⟨bucket, path, hbucket, hpath, rfl⟩ := qualifiedAlias_eq_ok.mp hkey
      obtain ⟨-, hmem⟩ := normalizeBucket_eq_ok.mp hbucket
      exact ⟨bucket, path, bucket_no_slash hmem, rfl, qualifiedAlias_eq_ok.mpr
        ⟨bucket, path, normalizeBucket_of_mem hmem, hrelative path hpath, rfl⟩⟩
    · obtain ⟨rel, root, hrel, hroot, -⟩ := aliasUnderPartition_eq_ok.mp hpath
      exact aliasUnderPartition_again hroot (hroots root hroot) hrel (hrelative rel hrel) hpath
    · rw [buildStorageKey, hroot] at hkey
      rw [buildStorageKey, hroots root hroot]
      exact hkey

/-- The path `/ a` becomes a path that starts with a blank, which the next pass takes away. -/
theorem covered_space_lost : normalizeRelativeAlias "/ a".toList = .ok " a".toList ∧
    normalizeRelativeAlias " a".toList ≠ .ok " a".toList := by
  decide

end AssetStore
