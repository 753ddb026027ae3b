import Mathlib.Algebra.BigOperators.Group.List.Basic
import Mathlib.Algebra.Order.BigOperators.Group.List
import Mathlib.Data.List.Sort

/-! Greedy relief. Candidates are taken from the front of a list until what they leave of a total is
at most a target. When no two candidates are equal under the order of the list, what is taken does
not depend on how they were given. -/

namespace AssetStore.Lib

variable {α G : Type} [AddCommGroup G] [LinearOrder G] {size : α → G} {target total : G}
  {candidates taken rest : List α} {a : α}

/-- The candidates that are taken are the shortest prefix that brings the total down to the target,
or all of them when no prefix does. -/
structure Relief (size : α → G) (target total : G) (candidates taken : List α) : Prop where
  front : taken <+: candidates
  needed : ∀ shorter, shorter <+: taken → shorter ≠ taken → target < total - (shorter.map size).sum
  enough : total - (taken.map size).sum ≤ target ∨ taken = candidates

namespace Relief

theorem nil : Relief size target total [] [] where
  front := List.prefix_rfl
  needed _ hfront hne := (hne (List.prefix_nil.mp hfront)).elim
  enough := .inr rfl

theorem stop (low : total ≤ target) : Relief size target total candidates [] where
  front := List.nil_prefix
  needed _ hfront hne := (hne (List.prefix_nil.mp hfront)).elim
  enough := .inl (by simpa using low)

theorem cons (high : target < total) (h : Relief size target (total - size a) rest taken) :
    Relief size target total (a :: rest) (a :: taken) where
  front := List.cons_prefix_cons.mpr ⟨rfl, h.front⟩
  needed shorter hfront hne := by
    cases shorter with
    | nil => simpa using high
    | cons b shorter =>
      obtain ⟨rfl, hfront'⟩ := List.cons_prefix_cons.mp hfront
      have hless := h.needed shorter hfront' fun he => hne (congrArg _ he)
      rwa [List.map_cons, List.sum_cons, ← sub_sub]
  enough := by
    rw [List.map_cons, List.sum_cons, ← sub_sub]
    exact h.enough.imp_right (congrArg (List.cons a))

/-- Before each candidate that is taken the total is above the target. -/
theorem above {before after : List α}
    (h : Relief size target total candidates (before ++ a :: after)) :
    target < total - (before.map size).sum :=
  h.needed before (List.prefix_append _ _) (by simp)

end Relief

/-- Sorting by an order in which no two entries are equal forgets how the list was given. -/
theorem mergeSort_eq_of_perm {le : α → α → Bool} {l l' : List α}
    (trans : ∀ a b c, le a b = true → le b c = true → le a c = true)
    (total : ∀ a b, (le a b || le b a) = true)
    (anti : ∀ a ∈ l, ∀ b ∈ l, le a b = true → le b a = true → a = b) (h : l.Perm l') :
    l.mergeSort le = l'.mergeSort le := by
  have hperm : (l.mergeSort le).Perm (l'.mergeSort le) :=
    (List.mergeSort_perm l le).trans (h.trans (List.mergeSort_perm l' le).symm)
  have anti' : ∀ a b, a ∈ l.mergeSort le → b ∈ l'.mergeSort le → le a b = true →
      le b a = true → a = b := by
    intro a b ha hb
    have hb' : b ∈ l := h.mem_iff.mpr (List.mem_mergeSort.mp hb)
    exact anti a (List.mem_mergeSort.mp ha) b hb'
  exact hperm.eq_of_pairwise anti' (List.pairwise_mergeSort trans total l)
    (List.pairwise_mergeSort trans total l')

/-- The positions of a list with one more entry. -/
theorem exists_split_concat {P : List α → α → Prop} {l : List α} {b : α} :
    (∃ before x after, l ++ [b] = before ++ x :: after ∧ P before x) ↔
      (∃ before x after, l = before ++ x :: after ∧ P before x) ∨ P l b := by
  constructor
  · rintro ⟨before, x, after, hsplit, hP⟩
    rcases List.eq_nil_or_concat after with rfl | ⟨init, last, rfl⟩
    · obtain ⟨rfl, rfl⟩ := List.append_inj' hsplit rfl |>.imp_right List.singleton_inj.mp
      exact .inr hP
    · have hlast : l ++ [b] = (before ++ x :: init) ++ [last] := by
        rw [hsplit, List.concat_eq_append]
        simp
      exact .inl ⟨before, x, init, (List.append_inj' hlast rfl).1, hP⟩
  · rintro (⟨before, x, after, rfl, hP⟩ | hP)
    · exact ⟨before, x, after ++ [b], by simp, hP⟩
    · exact ⟨l, b, [], rfl, hP⟩

/-- A list whose entries are matched, key by key, by entries with larger shares has the smaller
sum. -/
theorem sum_le_of_matched [IsOrderedAddMonoid G] {κ : Type} [DecidableEq α]
    {key : α → κ} {f : α → G}
    {l l' : List α}
    (distinct : (l'.map key).Nodup) (nonneg : ∀ a ∈ l, 0 ≤ f a)
    (matched : ∀ a' ∈ l', ∃ a ∈ l, key a = key a' ∧ f a' ≤ f a) :
    (l'.map f).sum ≤ (l.map f).sum := by
  induction l' generalizing l with
  | nil => exact List.sum_nonneg (by simpa using nonneg)
  | cons a' rest ih =>
    obtain ⟨a, ha, hkey, hle⟩ := matched a' List.mem_cons_self
    obtain ⟨hfresh, hrest⟩ := List.nodup_cons.mp distinct
    have hsum : (l.map f).sum = f a + ((l.erase a).map f).sum :=
      ((List.perm_cons_erase ha).map f).sum_eq.trans (by simp)
    rw [hsum, List.map_cons, List.sum_cons]
    refine add_le_add hle (ih hrest (fun b hb => nonneg b (List.mem_of_mem_erase hb))
      fun b' hb' => ?_)
    obtain ⟨b, hb, hkey', hle'⟩ := matched b' (List.mem_cons_of_mem _ hb')
    refine ⟨b, (List.mem_erase_of_ne ?_).mpr hb, hkey', hle'⟩
    rintro rfl
    exact hfresh (List.mem_map.mpr ⟨b', hb', hkey'.symm.trans hkey⟩)

end AssetStore.Lib
