import Mathlib.Data.List.DropRight

/-! Trimming a list at both ends by a class of elements, and by two classes one after the other:
`trim p q` drops the outer elements of class `p` and then those of class `q`, once. Such a trim is
not idempotent, since the second pass can expose elements of the first class, so the lemmas keep
the two ends apart: `lead` is what a trim does in front and `trail` what it does at the back. -/

namespace AssetStore.Lib

variable {α : Type}

/-- Drops the elements of class `p` at both ends. -/
def strip (p : α → Bool) (l : List α) : List α := (l.dropWhile p).rdropWhile p

/-- Drops in front the elements of class `p` and then those of class `q`. -/
def lead (p q : α → Bool) (l : List α) : List α := (l.dropWhile p).dropWhile q

/-- Drops at the back the elements of class `p` and then those of class `q`. -/
def trail (p q : α → Bool) (l : List α) : List α := (l.rdropWhile p).rdropWhile q

/-- Strips the class `p` and then the class `q`. -/
def trim (p q : α → Bool) (l : List α) : List α := strip q (strip p l)

theorem rdropWhile_append {p : α → Bool} {u v : List α} :
    (u ++ v).rdropWhile p = if v.rdropWhile p = [] then u.rdropWhile p
      else u ++ v.rdropWhile p := by
  simp only [List.rdropWhile, List.reverse_append, List.dropWhile_append, List.isEmpty_iff,
    List.reverse_eq_nil_iff]
  split
  · rfl
  · simp

/-- Dropping in front and dropping at the back commute, whatever the two classes are. -/
theorem rdropWhile_dropWhile (p q : α → Bool) (l : List α) :
    (l.dropWhile p).rdropWhile q = (l.rdropWhile q).dropWhile p := by
  induction l with
  | nil => rfl
  | cons a l ih =>
    by_cases ha : p a = true
    · rw [List.dropWhile_cons_of_pos ha, ih]
      rw [show a :: l = [a] ++ l from rfl, rdropWhile_append]
      split
      · rename_i hl
        rw [hl, List.rdropWhile_singleton]
        split <;> simp [ha]
      · simp [ha]
    · rw [List.dropWhile_cons_of_neg ha]
      rw [show a :: l = [a] ++ l from rfl, rdropWhile_append]
      split
      · rw [List.rdropWhile_singleton]
        split <;> simp [ha]
      · simp [ha]

section

variable (p q : α → Bool)

theorem trim_eq_lead_trail (l : List α) : trim p q l = lead p q (trail p q l) := by
  simp only [trim, strip, lead, trail, rdropWhile_dropWhile]

theorem trim_eq_trail_lead (l : List α) : trim p q l = trail p q (lead p q l) := by
  simp only [trim, strip, lead, trail, rdropWhile_dropWhile]

theorem lead_suffix (l : List α) : lead p q l <:+ l :=
  (List.dropWhile_suffix q).trans (List.dropWhile_suffix p)

theorem trail_starts (l : List α) : trail p q l <+: l :=
  (List.rdropWhile_prefix q _).trans (List.rdropWhile_prefix p l)

theorem length_lead_le (l : List α) : (lead p q l).length ≤ l.length :=
  (lead_suffix p q l).length_le

theorem length_trail_le (l : List α) : (trail p q l).length ≤ l.length :=
  (trail_starts p q l).length_le

theorem length_trim_le (l : List α) : (trim p q l).length ≤ l.length := by
  rw [trim_eq_lead_trail]
  exact (length_lead_le p q _).trans (length_trail_le p q l)

theorem lead_eq_self_of_length {l : List α} (h : l.length ≤ (lead p q l).length) :
    lead p q l = l :=
  (lead_suffix p q l).eq_of_length (le_antisymm (length_lead_le p q l) h)

theorem trail_eq_self_of_length {l : List α} (h : l.length ≤ (trail p q l).length) :
    trail p q l = l :=
  (trail_starts p q l).eq_of_length (le_antisymm (length_trail_le p q l) h)

theorem trim_within (l : List α) : trim p q l <:+: l := by
  rw [trim_eq_lead_trail]
  exact (lead_suffix p q _).isInfix.trans (trail_starts p q l).isInfix

theorem trim_eq_self_of_length {l : List α} (h : l.length ≤ (trim p q l).length) :
    trim p q l = l :=
  (trim_within p q l).eq_of_length (le_antisymm (length_trim_le p q l) h)

theorem trim_trail (l : List α) : trim p q (trail p q l) = trail p q (trim p q l) := by
  rw [trim_eq_trail_lead, ← trim_eq_lead_trail]

/-- A list that neither end of a trim changes is a fixed point of it. -/
theorem trim_of_ends {l : List α} (hlead : lead p q l = l) (htrail : trail p q l = l) :
    trim p q l = l := by
  rw [trim_eq_lead_trail, htrail, hlead]

theorem lead_of_trim {l : List α} (h : trim p q l = l) : lead p q l = l := by
  apply lead_eq_self_of_length
  calc l.length = (trail p q (lead p q l)).length := by rw [← trim_eq_trail_lead, h]
    _ ≤ (lead p q l).length := length_trail_le p q _

theorem trail_of_trim {l : List α} (h : trim p q l = l) : trail p q l = l := by
  apply trail_eq_self_of_length
  calc l.length = (lead p q (trail p q l)).length := by rw [← trim_eq_lead_trail, h]
    _ ≤ (trail p q l).length := length_lead_le p q _

variable {p q}

/-- A trim leaves everything before a part that it does not use up at the back. -/
theorem trail_append {u v : List α} (h : trail p q v ≠ []) :
    trail p q (u ++ v) = u ++ trail p q v := by
  have hp : v.rdropWhile p ≠ [] := by
    intro he
    rw [trail, he] at h
    exact h rfl
  unfold trail at h ⊢
  rw [rdropWhile_append, if_neg hp, rdropWhile_append, if_neg h]

/-- A trim leaves everything after a part that it does not use up in front. -/
theorem lead_append {u v : List α} (h : lead p q u ≠ []) : lead p q (u ++ v) = lead p q u ++ v := by
  have hp : u.dropWhile p ≠ [] := by
    intro he
    rw [lead, he] at h
    exact h rfl
  unfold lead at h ⊢
  rw [List.dropWhile_append, if_neg (by simpa using hp), List.dropWhile_append,
    if_neg (by simpa using h)]

/-- A part that a trim uses up at the back goes together with the separator before it. -/
theorem trail_append_cons {u v : List α} {c : α} (hp : p c = false) (hq : q c = true)
    (hu : trail p q u = u) (hv : trail p q v = []) : trail p q (u ++ c :: v) = u := by
  have huq : u.rdropWhile q = u := by
    nth_rewrite 1 [← hu]
    rw [trail, List.rdropWhile_idempotent]
    exact hu
  have hsep : (u ++ [c]).rdropWhile q = u := by rw [List.rdropWhile_concat_pos _ _ _ hq, huq]
  rw [show u ++ c :: v = (u ++ [c]) ++ v by simp, trail, rdropWhile_append]
  split
  · rw [List.rdropWhile_concat_neg _ _ _ (by simp [hp]), hsep]
  · unfold trail at hv
    rw [rdropWhile_append, if_pos hv, hsep]

theorem dropWhile_eq_self_of_forall {l : List α} (h : ∀ a ∈ l, q a = false) :
    l.dropWhile q = l := by
  cases l with
  | nil => rfl
  | cons a l => rw [List.dropWhile_cons_of_neg (by simp [h a (by simp)])]

theorem rdropWhile_eq_self_of_forall {l : List α} (h : ∀ a ∈ l, q a = false) :
    l.rdropWhile q = l := by
  rw [List.rdropWhile_eq_self_iff]
  intro hl
  simp [h _ (List.getLast_mem hl)]

/-- Without elements of the second class, a trim is a strip of the first. -/
theorem trim_eq_strip {l : List α} (h : ∀ a ∈ l, q a = false) : trim p q l = strip p l := by
  have hs : ∀ a ∈ strip p l, q a = false := fun a ha =>
    h a ((List.dropWhile_suffix p).subset ((List.rdropWhile_prefix p _).subset ha))
  unfold trim
  rw [strip, dropWhile_eq_self_of_forall hs, rdropWhile_eq_self_of_forall hs]

theorem lead_eq_dropWhile {l : List α} (h : ∀ a ∈ l, q a = false) :
    lead p q l = l.dropWhile p :=
  dropWhile_eq_self_of_forall fun a ha => h a ((List.dropWhile_suffix p).subset ha)

end

theorem strip_within (p : α → Bool) (l : List α) : strip p l <:+: l :=
  (List.rdropWhile_prefix p _).isInfix.trans (List.dropWhile_suffix p).isInfix

/-- A list that a strip leaves as it is loses nothing at its back. -/
theorem rdropWhile_of_strip {p : α → Bool} {l : List α} (h : strip p l = l) :
    l.rdropWhile p = l := by
  refine (List.rdropWhile_prefix p l).eq_of_length ?_
  refine le_antisymm (List.rdropWhile_prefix p l).length_le ?_
  calc l.length = ((l.rdropWhile p).dropWhile p).length := by
        rw [← rdropWhile_dropWhile]
        exact congrArg List.length h.symm
    _ ≤ (l.rdropWhile p).length := (List.dropWhile_suffix p).length_le

/-- A list that a strip leaves as it is loses nothing in front. -/
theorem dropWhile_of_strip {p : α → Bool} {l : List α} (h : strip p l = l) : l.dropWhile p = l := by
  refine (List.dropWhile_suffix p).eq_of_length ?_
  refine le_antisymm (List.dropWhile_suffix p).length_le ?_
  calc l.length = (strip p l).length := by rw [h]
    _ ≤ (l.dropWhile p).length := (List.rdropWhile_prefix p _).length_le

/-- A strip leaves what begins and ends with a list that it leaves. -/
theorem strip_between {p : α → Bool} {u v : List α} {c : α} (hu : strip p u = u) (hune : u ≠ [])
    (hv : strip p v = v) (hvne : v ≠ []) :
    strip p (u ++ c :: v) = u ++ c :: v := by
  have hlead : u.dropWhile p = u := dropWhile_of_strip hu
  have htrail : v.rdropWhile p = v := rdropWhile_of_strip hv
  have hfront : (u ++ c :: v).dropWhile p = u ++ c :: v := by
    rw [List.dropWhile_append, hlead, if_neg (by simpa using hune)]
  have hback : ((u ++ [c]) ++ v).rdropWhile p = (u ++ [c]) ++ v := by
    rw [rdropWhile_append, htrail, if_neg hvne]
  rw [strip, hfront]
  simpa using hback

theorem strip_strip (p : α → Bool) (l : List α) : strip p (strip p l) = strip p l := by
  unfold strip
  rw [← rdropWhile_dropWhile, List.dropWhile_idempotent, List.rdropWhile_idempotent]

/-! ### A strip of the second class against a trim of both

What a strip of `q` alone keeps and a trim drops: in front, elements of `p` and after them elements
of `q`; the mirror image at the back. -/

section

variable {p q : α → Bool} {l : List α}

theorem dropWhile_eq_lead (h : ∀ a, p a = true → q a = false) :
    ∃ w s, l.dropWhile q = w ++ s ++ lead p q l ∧ (∀ a ∈ w, p a = true) ∧ (∀ a ∈ s, q a = true) ∧
      (w = [] → s = []) := by
  cases l with
  | nil => exact ⟨[], [], by simp [lead]⟩
  | cons a l =>
    cases hp : p a with
    | false =>
      refine ⟨[], [], ?_, by simp, by simp, fun _ => rfl⟩
      rw [lead, List.dropWhile_cons_of_neg (p := p) (by simp [hp])]
      rfl
    | true =>
      refine ⟨(a :: l).takeWhile p, ((a :: l).dropWhile p).takeWhile q, ?_,
        fun _ => List.mem_takeWhile_imp, fun _ => List.mem_takeWhile_imp, ?_⟩
      · rw [List.dropWhile_cons_of_neg (by simp [h a hp]), List.append_assoc, lead,
          List.takeWhile_append_dropWhile, List.takeWhile_append_dropWhile]
      · simp [hp]

theorem lead_reverse (l : List α) : lead p q l.reverse = (trail p q l).reverse := by
  simp [lead, trail, List.rdropWhile]

theorem rdropWhile_eq_trail (h : ∀ a, p a = true → q a = false) :
    ∃ s w, l.rdropWhile q = trail p q l ++ s ++ w ∧ (∀ a ∈ s, q a = true) ∧ (∀ a ∈ w, p a = true) ∧
      (w = [] → s = []) := by
  obtain ⟨w, s, heq, hw, hs, hne⟩ := dropWhile_eq_lead (l := l.reverse) h
  refine ⟨s.reverse, w.reverse, ?_, by simpa using hs, by simpa using hw, by simpa using hne⟩
  rw [List.rdropWhile, heq, lead_reverse]
  simp

/-- What a strip of `q` leaves around the trim, when the trim leaves anything. -/
theorem strip_eq_trim (h : ∀ a, p a = true → q a = false) (hne : trim p q l ≠ []) :
    ∃ w s s' w', strip q l = w ++ s ++ trim p q l ++ s' ++ w' ∧ (∀ a ∈ w, p a = true) ∧
      (∀ a ∈ s, q a = true) ∧ (w = [] → s = []) ∧ (∀ a ∈ w', p a = true) ∧ (w' = [] → s' = []) := by
  obtain ⟨s', w', hback, -, hw', hs'⟩ := rdropWhile_eq_trail (l := l) h
  obtain ⟨w, s, hfront, hw, hs, hws⟩ := dropWhile_eq_lead (l := trail p q l) h
  refine ⟨w, s, s', w', ?_, hw, hs, hws, hw', hs'⟩
  rw [← trim_eq_lead_trail] at hfront
  rw [strip, rdropWhile_dropWhile, hback, List.append_assoc, List.dropWhile_append, if_neg, hfront]
  · simp only [List.append_assoc]
  · simp [hfront, hne]

end

/-! ### What a trim leaves at its ends -/

/-- In front of the list, behind elements of `p` and at least one of `q`, stands an element of
`p`. -/
def Exposes (p q : α → Bool) (l : List α) : Prop :=
  ∃ w s c rest, l = w ++ s ++ c :: rest ∧ (∀ a ∈ w, p a = true) ∧ (∀ a ∈ s, q a = true) ∧ s ≠ [] ∧
    p c = true

section

variable {p q : α → Bool} {l : List α}

theorem head_lead_not_q : ∀ c ∈ (lead p q l).head?, q c = false := by
  intro c hc
  have hhead := List.head?_dropWhile_not q (l.dropWhile p)
  rw [show (l.dropWhile p).dropWhile q = lead p q l from rfl, Option.mem_def.mp hc] at hhead
  simpa using hhead

/-- The list exposes an element exactly when a trim leaves an element of `p` in front. -/
theorem exposes_iff (h : ∀ a, p a = true → q a = false) :
    Exposes p q l ↔ ∃ c ∈ (lead p q l).head?, p c = true := by
  constructor
  · rintro ⟨w, s, c, rest, rfl, hw, hs, hne, hc⟩
    obtain ⟨d, s, rfl⟩ := List.exists_cons_of_ne_nil hne
    have hd : p d = false := by
      rw [← Bool.not_eq_true]
      intro hpd
      have hqd := hs d List.mem_cons_self
      rw [h d hpd] at hqd
      cases hqd
    refine ⟨c, ?_, hc⟩
    rw [lead, List.append_assoc, List.dropWhile_append_of_pos hw, List.cons_append,
      List.dropWhile_cons_of_neg (by simp [hd]), ← List.cons_append,
        List.dropWhile_append_of_pos hs,
      List.dropWhile_cons_of_neg (by simp [h c hc])]
    rfl
  · rintro ⟨c, hc, hpc⟩
    obtain ⟨rest, hrest⟩ := List.head?_eq_some_iff.mp (Option.mem_def.mp hc)
    refine ⟨l.takeWhile p, (l.dropWhile p).takeWhile q, c, rest, ?_,
      fun _ => List.mem_takeWhile_imp, fun _ => List.mem_takeWhile_imp, fun hnil => ?_, hpc⟩
    · rw [← hrest, lead, List.append_assoc, List.takeWhile_append_dropWhile,
        List.takeWhile_append_dropWhile]
    · -- nothing of `q` was dropped, so `c` is the first element that is not of `p`
      have hsame : l.dropWhile p = c :: rest := by
        rw [← hrest, lead]
        nth_rewrite 1 [← List.takeWhile_append_dropWhile (p := q) (l := l.dropWhile p)]
        rw [hnil, List.nil_append]
      have hhead := List.head?_dropWhile_not p l
      rw [hsame] at hhead
      simp [hpc] at hhead

theorem trail_reverse (l : List α) : trail p q l.reverse = (lead p q l).reverse := by
  rw [← List.reverse_inj, ← lead_reverse, List.reverse_reverse, List.reverse_reverse]

theorem trim_reverse (l : List α) : trim p q l.reverse = (trim p q l).reverse := by
  rw [trim_eq_trail_lead, lead_reverse, trail_reverse, ← trim_eq_lead_trail]

/-- A trim that leaves something starts like the trim in front. -/
theorem head_trim (hne : trim p q l ≠ []) : (trim p q l).head? = (lead p q l).head? := by
  rw [trim_eq_trail_lead] at hne ⊢
  obtain ⟨back, hback⟩ := trail_starts p q (lead p q l)
  obtain ⟨c, rest, hcons⟩ := List.exists_cons_of_ne_nil hne
  have hlead : lead p q l = c :: (rest ++ back) := by rw [← hback, hcons, List.cons_append]
  rw [hcons, hlead]
  rfl

/-- Another trim in front changes nothing exactly when the list exposes nothing there. -/
theorem lead_trim_iff (h : ∀ a, p a = true → q a = false) (hne : trim p q l ≠ []) :
    lead p q (trim p q l) = trim p q l ↔ ¬Exposes p q l := by
  have hhead := head_trim hne
  obtain ⟨c, rest, hcons⟩ := List.exists_cons_of_ne_nil hne
  rw [hcons, List.head?_cons] at hhead
  have hq : q c = false := head_lead_not_q c hhead.symm
  have hexposes : Exposes p q l ↔ p c = true := by
    rw [exposes_iff h, ← hhead]
    simp
  rw [hexposes, hcons]
  constructor
  · intro hsame hc
    have hlength := length_lead_le p q rest
    have hdrop : lead p q (c :: rest) = lead p q rest := by
      rw [lead, List.dropWhile_cons_of_pos hc, ← lead]
    rw [← hdrop, hsame, List.length_cons] at hlength
    omega
  · intro hc
    rw [lead, List.dropWhile_cons_of_neg hc, List.dropWhile_cons_of_neg (by simp [hq])]

/-- Another trim changes nothing exactly when the list exposes nothing at either end. -/
theorem trim_trim_iff (h : ∀ a, p a = true → q a = false) (hne : trim p q l ≠ []) :
    trim p q (trim p q l) = trim p q l ↔ ¬Exposes p q l ∧ ¬Exposes p q l.reverse := by
  have hback : trail p q (trim p q l) = trim p q l ↔ ¬Exposes p q l.reverse := by
    have hne' : trim p q l.reverse ≠ [] := by
      rw [trim_reverse]
      simpa using hne
    rw [← lead_trim_iff h hne', trim_reverse, lead_reverse, List.reverse_inj]
  rw [← lead_trim_iff h hne, ← hback]
  exact ⟨fun htrim => ⟨lead_of_trim p q htrim, trail_of_trim p q htrim⟩,
    fun hends => trim_of_ends p q hends.1 hends.2⟩

end
end AssetStore.Lib
