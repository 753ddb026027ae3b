import Mathlib.Data.List.Basic

/-! Lists that are cut at a separator into segments, and joined from segments again. -/

namespace AssetStore.Lib

variable {α : Type} [DecidableEq α] {c x : α} {l root path segment : List α}
  {segments rest : List (List α)}

/-- A segment does not hold the separator. -/
theorem not_mem_of_mem_splitOn (h : segment ∈ l.splitOn c) : c ∉ segment := by
  induction l generalizing segment with
  | nil =>
    rw [List.splitOn_nil, List.mem_singleton] at h
    simp [h]
  | cons x l ih =>
    rw [List.splitOn_cons_eq_if_modifyHead] at h
    split at h
    · rcases List.mem_cons.mp h with rfl | h
      · simp
      · exact ih h
    · rename_i hx
      cases hl : l.splitOn c with
      | nil => exact absurd hl (List.splitOn_ne_nil c l)
      | cons first rest =>
        rw [hl, List.modifyHead_cons, List.mem_cons] at h
        rcases h with rfl | h
        · simp only [List.mem_cons, not_or]
          exact ⟨fun heq => hx (by simp [heq]), ih (by simp [hl])⟩
        · exact ih (by simp [hl, h])

omit [DecidableEq α] in
theorem intercalate_append (hsegments : segments ≠ []) (hrest : rest ≠ []) :
    [c].intercalate (segments ++ rest) = [c].intercalate segments ++ c :: [c].intercalate rest := by
  induction segments with
  | nil => exact absurd rfl hsegments
  | cons first more ih =>
    cases more with
    | nil => simp [List.intercalate_cons_of_ne_nil hrest]
    | cons second more =>
      have hmore : second :: more ≠ [] := List.cons_ne_nil _ _
      rw [List.cons_append, List.intercalate_cons_of_ne_nil (by simp), ih hmore,
        List.intercalate_cons_of_ne_nil hmore]
      simp only [List.append_assoc]

omit [DecidableEq α] in
/-- What is in a join is the separator or in a segment. -/
theorem mem_intercalate (hx : x ≠ c) (h : x ∈ [c].intercalate segments) :
    ∃ s ∈ segments, x ∈ s := by
  induction segments with
  | nil => simp at h
  | cons first rest ih =>
    cases rest with
    | nil => exact ⟨first, by simp, by simpa using h⟩
    | cons second rest =>
      rw [List.intercalate_cons_cons, List.mem_append, List.mem_append, List.mem_singleton] at h
      rcases h with (h | h) | h
      · exact ⟨first, by simp, h⟩
      · exact absurd h hx
      · obtain ⟨s, hmem, hin⟩ := ih h
        exact ⟨s, List.mem_cons_of_mem _ hmem, hin⟩

omit [DecidableEq α] in
theorem subset_intercalate (h : segment ∈ segments) : segment ⊆ [c].intercalate segments := by
  induction segments with
  | nil => cases h
  | cons first rest ih =>
    cases rest with
    | nil => simp [List.mem_singleton.mp h]
    | cons second rest =>
      rw [List.intercalate_cons_cons, List.append_assoc]
      rcases List.mem_cons.mp h with rfl | h
      · exact List.subset_append_left _ _
      · exact List.subset_append_of_subset_right _ (List.subset_append_of_subset_right _ (ih h))

/-- The segments of one list begin with those of another when it is that list, or goes on after a
separator. -/
theorem splitOn_prefix_iff :
    root.splitOn c <+: path.splitOn c ↔ path = root ∨ ∃ rest, path = root ++ c :: rest := by
  constructor
  · rintro ⟨more, hmore⟩
    have hjoin : path = [c].intercalate (root.splitOn c ++ more) := by
      rw [hmore, List.intercalate_splitOn]
    cases more with
    | nil => exact .inl (by rw [hjoin, List.append_nil, List.intercalate_splitOn])
    | cons first more =>
      refine .inr ⟨[c].intercalate (first :: more), ?_⟩
      rw [hjoin, intercalate_append (List.splitOn_ne_nil c root) (by simp),
        List.intercalate_splitOn]
  · rintro (rfl | ⟨rest, rfl⟩)
    · exact List.prefix_rfl
    · rw [List.splitOn_append_cons_self]
      exact List.prefix_append _ _

end AssetStore.Lib
