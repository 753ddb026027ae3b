import Mathlib.Data.List.Sort
import Mathlib.Order.Basic

/-! Keyset pagination. A page starts after a key and holds the first entries of a sorted list past
it; the next page starts after the key of its last entry, in a list that may have changed in
between. -/

namespace AssetStore.Lib

variable {α κ : Type} [LinearOrder κ] {key : α → κ}

/-- Lists with the same entries in the order of their keys are equal when the keys tell the entries
apart. -/
theorem eq_of_perm_of_sorted (key : α → κ) {l l' : List α} (perm : l.Perm l')
    (apart : ∀ a ∈ l, ∀ b ∈ l, key a = key b → a = b)
    (sorted : l.Pairwise fun a b => key a ≤ key b)
    (sorted' : l'.Pairwise fun a b => key a ≤ key b) : l = l' :=
  perm.eq_of_pairwise (fun a b ha hb hab hba =>
    apart a ha b (perm.mem_iff.mpr hb) (le_antisymm hab hba)) sorted sorted'

/-- Sorting by a key. -/
theorem pairwise_mergeSort_key (key : α → κ) (l : List α) :
    (l.mergeSort fun a b => decide (key a ≤ key b)).Pairwise fun a b => key a ≤ key b := by
  have htrans : ∀ a b c : α, decide (key a ≤ key b) = true → decide (key b ≤ key c) = true →
      decide (key a ≤ key c) = true := fun a b c hab hbc => by
    rw [decide_eq_true_iff] at *
    exact le_trans hab hbc
  have htotal : ∀ a b : α, (decide (key a ≤ key b) || decide (key b ≤ key a)) = true :=
    fun a b => by
    rw [Bool.or_eq_true, decide_eq_true_iff, decide_eq_true_iff]
    exact le_total _ _
  refine (List.pairwise_mergeSort htrans htotal l).imp fun hab => ?_
  exact of_decide_eq_true hab

/-- The entry comes after the given key, if there is one. -/
def Past (key : α → κ) (after : Option κ) (a : α) : Prop := ∀ k ∈ after, k < key a

instance (key : α → κ) (after : Option κ) (a : α) : Decidable (Past key after a) := by
  unfold Past
  infer_instance

/-- The entries past a key. -/
def pastKey (key : α → κ) (after : Option κ) (l : List α) : List α :=
  l.filter fun a => Past key after a

theorem mem_pastKey {after : Option κ} {l : List α} {a : α} :
    a ∈ pastKey key after l ↔ a ∈ l ∧ Past key after a := by
  simp [pastKey]

/-- The list is sorted and its keys are distinct. -/
abbrev Increasing (key : α → κ) (l : List α) : Prop := l.Pairwise fun a b => key a < key b

theorem Increasing.pastKey {after : Option κ} {l : List α} (h : Increasing key l) :
    Increasing key (pastKey key after l) := List.Pairwise.filter _ h

/-- Pages of a sequence of lists. All but the last page are cut short, and the next one starts after
their last entry. -/
inductive Paged (key : α → κ) : Option κ → List (List α) → List (List α) → Prop
  | last {after : Option κ} {source : List α} : Paged key after [source] [pastKey key after source]
  | next {after : Option κ} {source : List α} {n : Nat} {x : α} {sources pages : List (List α)}
      (ends : ((pastKey key after source).take n).getLast? = some x)
      (rest : Paged key (some (key x)) sources pages) :
      Paged key after (source :: sources) ((pastKey key after source).take n :: pages)

section Cut

variable {l : List α} {n : Nat} {x : α}

/-- The entries of a page come before its last one. -/
theorem Increasing.le_getLast (h : Increasing key l) (hx : (l.take n).getLast? = some x) {a : α}
    (ha : a ∈ l.take n) : key a ≤ key x := by
  obtain ⟨init, hinit⟩ := List.getLast?_eq_some_iff.mp hx
  have htake : Increasing key (l.take n) := h.sublist (List.take_sublist n l)
  rw [hinit] at ha htake
  rcases List.mem_append.mp ha with hinit | hlast
  · exact le_of_lt ((List.pairwise_append.mp htake).2.2 a hinit x List.mem_cons_self)
  · obtain rfl := List.mem_singleton.mp hlast
    exact le_refl _

/-- The entries after a page come after its last one. -/
theorem Increasing.lt_of_mem_drop (h : Increasing key l) (hx : (l.take n).getLast? = some x) {a : α}
    (ha : a ∈ l.drop n) : key x < key a := by
  have hsplit : Increasing key (l.take n ++ l.drop n) := by rwa [List.take_append_drop]
  exact (List.pairwise_append.mp hsplit).2.2 x (List.mem_of_getLast? hx) a ha

/-- The list past the last entry of a page is what the page leaves. -/
theorem Increasing.pastKey_getLast (h : Increasing key l) (hx : (l.take n).getLast? = some x) :
    AssetStore.Lib.pastKey key (some (key x)) l = l.drop n := by
  conv_lhs => rw [← List.take_append_drop n l]
  rw [AssetStore.Lib.pastKey, List.filter_append]
  have hbefore : (l.take n).filter (fun a => Past key (some (key x)) a) = [] := by
    refine List.filter_eq_nil_iff.mpr fun a ha => ?_
    simpa [Past] using h.le_getLast hx ha
  have hafter : (l.drop n).filter (fun a => Past key (some (key x)) a) = l.drop n := by
    refine List.filter_eq_self.mpr fun a ha => ?_
    simpa [Past] using h.lt_of_mem_drop hx ha
  rw [hbefore, hafter, List.nil_append]

/-- Past the last entry of a page comes what the page leaves. -/
theorem Increasing.pastKey_next {after : Option κ} (h : Increasing key l)
    (ends : ((AssetStore.Lib.pastKey key after l).take n).getLast? = some x) :
    AssetStore.Lib.pastKey key (some (key x)) l = (AssetStore.Lib.pastKey key after l).drop n := by
  have hx :
      Past key after x := (mem_pastKey.mp (List.mem_of_mem_take (List.mem_of_getLast? ends))).2
  rw [← h.pastKey.pastKey_getLast ends]
  -- there is nothing past the page that the page's own start would exclude
  unfold AssetStore.Lib.pastKey
  rw [List.filter_filter]
  refine List.filter_congr fun a _ => ?_
  by_cases hpast : Past key (some (key x)) a
  · have hafter : Past key after a := fun k hk => (hx k hk).trans (hpast _ rfl)
    simp [hpast, hafter]
  · simp [hpast]

end Cut

namespace Paged

variable {after : Option κ} {sources pages : List (List α)}

/-- The pages together are sorted, whatever happens between them. -/
theorem increasing (h : Paged key after sources pages) (sorted : ∀ l ∈ sources, Increasing key l) :
    Increasing key pages.flatten ∧ ∀ a ∈ pages.flatten, Past key after a := by
  induction h with
  | @last after source =>
    have hsource := sorted source List.mem_cons_self
    simp only [List.flatten_cons, List.flatten_nil, List.append_nil]
    exact ⟨hsource.pastKey, fun a ha => (mem_pastKey.mp ha).2⟩
  | @next after source n x sources pages ends rest ih =>
    have hsource : Increasing key (pastKey key after source) :=
      (sorted source List.mem_cons_self).pastKey
    obtain ⟨hrest, hpast⟩ := ih fun l hl => sorted l (List.mem_cons_of_mem _ hl)
    have hfirst : ∀ a ∈ (pastKey key after source).take n, Past key after a := fun a ha =>
      (mem_pastKey.mp (List.mem_of_mem_take ha)).2
    have hx : Past key after x := hfirst x (List.mem_of_getLast? ends)
    simp only [List.flatten_cons]
    refine ⟨List.pairwise_append.mpr ⟨hsource.sublist (List.take_sublist _ _), hrest, ?_⟩,
      fun a ha => ?_⟩
    · intro a ha b hb
      exact (hsource.le_getLast ends ha).trans_lt (hpast b hb _ rfl)
    · rcases List.mem_append.mp ha with ha | ha
      · exact hfirst a ha
      · exact fun k hk => (hx k hk).trans (hpast a ha _ rfl)

/-- The entries of the pages come from the lists. -/
theorem exists_source (h : Paged key after sources pages) {a : α} (ha : a ∈ pages.flatten) :
    ∃ l ∈ sources, a ∈ l := by
  induction h with
  | @last after source =>
    simp only [List.flatten_cons, List.flatten_nil, List.append_nil] at ha
    exact ⟨source, List.mem_cons_self, (mem_pastKey.mp ha).1⟩
  | @next after source n x sources pages ends rest ih =>
    rcases List.mem_append.mp (List.flatten_cons ▸ ha) with hpage | hrest
    · exact ⟨source, List.mem_cons_self, (mem_pastKey.mp (List.mem_of_mem_take hpage)).1⟩
    · obtain ⟨l, hl, hmem⟩ := ih hrest
      exact ⟨l, List.mem_cons_of_mem _ hl, hmem⟩

/-- A key that every list holds is on some page. -/
theorem complete (h : Paged key after sources pages)
    (sorted : ∀ l ∈ sources, Increasing key l) {k : κ}
    (held : ∀ l ∈ sources, ∃ a ∈ l, key a = k) (past : ∀ k' ∈ after, k' < k) :
    ∃ a ∈ pages.flatten, key a = k := by
  induction h with
  | @last after source =>
    obtain ⟨a, ha, rfl⟩ := held source List.mem_cons_self
    exact ⟨a, by simpa using mem_pastKey.mpr ⟨ha, past⟩, rfl⟩
  | @next after source n x sources pages ends rest ih =>
    have hsource : Increasing key (pastKey key after source) :=
      (sorted source List.mem_cons_self).pastKey
    obtain ⟨a, ha, rfl⟩ := held source List.mem_cons_self
    have hmem : a ∈ pastKey key after source := mem_pastKey.mpr ⟨ha, past⟩
    rw [← List.take_append_drop n (pastKey key after source)] at hmem
    rcases List.mem_append.mp hmem with hpage | hleft
    · exact ⟨a, by simp [hpage], rfl⟩
    · obtain ⟨b, hb, hkey⟩ := ih (fun l hl => sorted l (List.mem_cons_of_mem _ hl))
        (fun l hl => held l (List.mem_cons_of_mem _ hl))
        (by simpa using hsource.lt_of_mem_drop ends hleft)
      exact ⟨b, by simp [hb], hkey⟩

/-- The pages of a list that does not change are the list. -/
theorem flatten_of_constant {l : List α} (h : Paged key after sources pages)
    (sorted : Increasing key l)
    (constant : ∀ source ∈ sources, source = l) : pages.flatten = pastKey key after l := by
  induction h with
  | @last after source =>
    obtain rfl := constant source List.mem_cons_self
    simp
  | @next after source n x sources pages ends rest ih =>
    obtain rfl := constant source List.mem_cons_self
    rw [List.flatten_cons, ih fun s hs => constant s (List.mem_cons_of_mem _ hs)]
    rw [sorted.pastKey_next ends, List.take_append_drop]

end Paged

end AssetStore.Lib
