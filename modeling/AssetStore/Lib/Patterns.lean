import Mathlib.Computability.RegularExpressions

/-! Patterns over regular expressions: texts, classes of characters, repetitions and options, and
what can be read off an expression about all the lists that it matches: the letters they may contain
and the letters they may start with. -/

namespace AssetStore.Lib

open RegularExpression

variable {α : Type}

/-- The text itself. -/
def lit (s : List α) : RegularExpression α := s.foldr (fun a rest => char a * rest) 1

/-- One letter of the class. -/
def oneOf (s : List α) : RegularExpression α := s.foldr (fun a rest => char a + rest) 0

/-- One of the texts. -/
def anyOf (texts : List (List α)) : RegularExpression α :=
  texts.foldr (fun s rest => lit s + rest) 0

/-- The expression once or more often. -/
def many (r : RegularExpression α) : RegularExpression α := r * r.star

/-- The expression or nothing. -/
def optional (r : RegularExpression α) : RegularExpression α := 1 + r

/-- One list for each of the expressions, with `c` between them. -/
def joined (c : α) : List (RegularExpression α) → RegularExpression α
  | [] => 1
  | [P] => P
  | P :: Q :: rest => P * (char c * joined c (Q :: rest))

/-- The letters of an expression. -/
def letters : RegularExpression α → List α
  | .zero => []
  | .epsilon => []
  | .char a => [a]
  | .plus P Q => letters P ++ letters Q
  | .comp P Q => letters P ++ letters Q
  | .star P => letters P

/-- The letters that a list it matches may start with. -/
def starts : RegularExpression α → List α
  | .zero => []
  | .epsilon => []
  | .char a => [a]
  | .plus P Q => starts P ++ starts Q
  | .comp P Q => if P.matchEpsilon then starts P ++ starts Q else starts P
  | .star P => starts P

variable {P Q : RegularExpression α} {s x : List α} {a : α}

theorem mem_lit : x ∈ (lit s).matches' ↔ x = s := by
  induction s generalizing x with
  | nil => exact Iff.rfl
  | cons b rest ih =>
    show x ∈ (char b * lit rest).matches' ↔ _
    rw [matches'_mul, matches'_char, Language.mem_mul]
    constructor
    · rintro ⟨_, rfl, t, ht, rfl⟩
      rw [ih.mp ht]
      rfl
    · rintro rfl
      exact ⟨[b], rfl, rest, ih.mpr rfl, rfl⟩

theorem mem_oneOf : x ∈ (oneOf s).matches' ↔ ∃ a ∈ s, x = [a] := by
  induction s with
  | nil => simp [oneOf]
  | cons b rest ih =>
    show x ∈ (char b + oneOf rest).matches' ↔ _
    rw [matches'_add, Language.mem_add, ih, matches'_char]
    simp only [List.mem_cons, exists_eq_or_imp]
    exact Iff.rfl

/-- A list of letters of the class matches its repetition. -/
theorem mem_star_oneOf : x ∈ (oneOf s).star.matches' ↔ ∀ a ∈ x, a ∈ s := by
  rw [matches'_star, Language.mem_kstar]
  constructor
  · rintro ⟨L, rfl, hL⟩ a ha
    obtain ⟨y, hy, hay⟩ := List.mem_flatten.mp ha
    obtain ⟨b, hb, rfl⟩ := mem_oneOf.mp (hL y hy)
    rwa [List.mem_singleton.mp hay]
  · intro h
    refine ⟨x.map fun a => [a], ?_, ?_⟩
    · induction x with
      | nil => rfl
      | cons a rest ih =>
        rw [List.map_cons, List.flatten_cons, ← ih fun b hb => h b (List.mem_cons_of_mem _ hb)]
        rfl
    · intro y hy
      obtain ⟨a, ha, rfl⟩ := List.mem_map.mp hy
      exact mem_oneOf.mpr ⟨a, h a ha, rfl⟩

theorem mem_mul : x ∈ (P * Q).matches' ↔ ∃ u ∈ P.matches', ∃ v ∈ Q.matches', u ++ v = x := by
  rw [matches'_mul, Language.mem_mul]

theorem mem_lit_mul : x ∈ (lit s * P).matches' ↔ ∃ v ∈ P.matches', s ++ v = x := by
  rw [mem_mul]
  constructor
  · rintro ⟨u, hu, v, hv, rfl⟩
    exact ⟨v, hv, by rw [mem_lit.mp hu]⟩
  · rintro ⟨v, hv, rfl⟩
    exact ⟨s, mem_lit.mpr rfl, v, hv, rfl⟩

theorem mem_joined {c : α} {Ps : List (RegularExpression α)} : x ∈ (joined c Ps).matches' ↔
    ∃ xs, List.Forall₂ (fun u P => u ∈ P.matches') xs Ps ∧ x = [c].intercalate xs := by
  induction Ps generalizing x with
  | nil =>
    rw [joined, matches'_epsilon, Language.mem_one]
    simp
  | cons P rest ih =>
    cases rest with
    | nil =>
      simp only [List.forall₂_cons_right_iff, List.forall₂_nil_right_iff, joined]
      constructor
      · exact fun h => ⟨[x], ⟨x, [], h, rfl, rfl⟩, by simp⟩
      · rintro ⟨_, ⟨u, _, hu, rfl, rfl⟩, rfl⟩
        simpa using hu
    | cons Q rest =>
      rw [joined, mem_mul]
      constructor
      · rintro ⟨u, hu, _, h, rfl⟩
        obtain ⟨_, rfl, v, hv, rfl⟩ := mem_mul.mp h
        obtain ⟨xs, hxs, rfl⟩ := ih.mp hv
        obtain ⟨first, more, _, _, rfl⟩ := List.forall₂_cons_right_iff.mp hxs
        exact ⟨u :: first :: more, .cons hu hxs, by simp [List.intercalate_cons_cons]⟩
      · rintro ⟨xs, hxs, rfl⟩
        obtain ⟨u, more, hu, hmore, rfl⟩ := List.forall₂_cons_right_iff.mp hxs
        obtain ⟨first, tail, _, _, rfl⟩ := List.forall₂_cons_right_iff.mp hmore
        refine ⟨u, hu, _, mem_mul.mpr ⟨[c], rfl, _, ih.mpr ⟨_, hmore, rfl⟩, rfl⟩, ?_⟩
        simp [List.intercalate_cons_cons]

/-- Everything that matches is made of letters of the expression. -/
theorem mem_letters (hx : x ∈ P.matches') (ha : a ∈ x) : a ∈ letters P := by
  induction P generalizing x with
  | zero => exact absurd hx (Language.notMem_zero x)
  | epsilon =>
    rw [(Language.mem_one x).mp hx] at ha
    cases ha
  | char b =>
    rw [show x = [b] from hx] at ha
    exact ha
  | plus P Q ihP ihQ =>
    rcases (Language.mem_add _ _ x).mp hx with h | h
    · exact List.mem_append_left _ (ihP h ha)
    · exact List.mem_append_right _ (ihQ h ha)
  | comp P Q ihP ihQ =>
    obtain ⟨u, hu, v, hv, rfl⟩ := Language.mem_mul.mp hx
    rcases List.mem_append.mp ha with h | h
    · exact List.mem_append_left _ (ihP hu h)
    · exact List.mem_append_right _ (ihQ hv h)
  | star P ih =>
    obtain ⟨L, rfl, hL⟩ := Language.mem_kstar.mp hx
    obtain ⟨y, hy, hay⟩ := List.mem_flatten.mp ha
    exact ih (hL y hy) hay

variable [DecidableEq α]

/-- An expression that does not match the empty list matches no empty list. -/
theorem ne_nil_of_matches (h : P.matchEpsilon = false) (hx : x ∈ P.matches') : x ≠ [] := by
  rintro rfl
  have hmatch : P.rmatch [] = true := (rmatch_iff_matches' P []).mpr hx
  rw [rmatch, h] at hmatch
  cases hmatch

/-- Nothing that matches starts with another letter than those of `starts`. -/
theorem mem_starts (hx : a :: x ∈ P.matches') : a ∈ starts P := by
  induction P generalizing x with
  | zero => exact absurd hx (Language.notMem_zero _)
  | epsilon => cases (Language.mem_one _).mp hx
  | char b =>
    exact List.mem_singleton.mpr (List.cons.inj (show a :: x = [b] from hx)).1
  | plus P Q ihP ihQ =>
    rcases (Language.mem_add _ _ _).mp hx with h | h
    · exact List.mem_append_left _ (ihP h)
    · exact List.mem_append_right _ (ihQ h)
  | comp P Q ihP ihQ =>
    obtain ⟨u, hu, v, hv, heq⟩ := Language.mem_mul.mp hx
    have hsub : starts P ⊆ starts (.comp P Q) := by
      rw [starts]
      split
      · exact List.subset_append_left _ _
      · exact List.Subset.refl _
    cases u with
    | nil =>
      have hepsilon : P.matchEpsilon = true := by
        by_contra hno
        exact ne_nil_of_matches (by simpa using hno) hu rfl
      rw [List.nil_append] at heq
      rw [starts, if_pos hepsilon]
      exact List.mem_append_right _ (ihQ (heq ▸ hv))
    | cons b rest =>
      rw [List.cons_append, List.cons.injEq] at heq
      exact hsub (ihP (heq.1 ▸ hu))
  | star P ih =>
    obtain ⟨L, heq, hL⟩ := Language.mem_kstar.mp hx
    induction L with
    | nil => cases heq
    | cons y rest ihL =>
      cases y with
      | nil => exact ihL heq fun y hy => hL y (List.mem_cons_of_mem _ hy)
      | cons b tail =>
        rw [List.flatten_cons, List.cons_append, List.cons.injEq] at heq
        exact ih (heq.1 ▸ hL _ List.mem_cons_self)

end AssetStore.Lib
