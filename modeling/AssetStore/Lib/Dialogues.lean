import AssetStore.Lib.Threads

/-! A program that talks to a server which others use too: before each call the others may change
the state, then the server answers the call. A dialogue is the list of the calls with their answers
and the states around them. It is taken apart along the program, and a relation that the others and
the server respect holds all along it. -/

namespace AssetStore.Lib

universe u

/-- A call, its answer and the states around it. -/
structure Exchange (F : Type → Type u) (ε σ : Type) where
  {β : Type}
  call : F β
  before : σ
  answer : Except ε β
  after : σ

variable {F : Type → Type u} {ε σ α β : Type}

/-- The dialogues of a program, with the state at the end and the result. -/
inductive Dialogue (serves : (β : Type) → F β → σ → Except ε β → σ → Prop) (others : σ → σ → Prop) :
    Prog F ε α → σ → List (Exchange F ε σ) → σ → Except ε α → Prop
  | ret {r : Except ε α} {s : σ} : Dialogue serves others (.ret r) s [] s r
  | call {β : Type} {c : F β} {k : Except ε β → Prog F ε α} {s s1 s2 s' : σ} {answer : Except ε β}
      {exchanges : List (Exchange F ε σ)} {r : Except ε α}
      (moved : others s s1) (served : serves β c s1 answer s2)
      (rest : Dialogue serves others (k answer) s2 exchanges s' r) :
      Dialogue serves others (.call c k) s (⟨c, s1, answer, s2⟩ :: exchanges) s' r

namespace Dialogue

variable {serves : (β : Type) → F β → σ → Except ε β → σ → Prop} {others : σ → σ → Prop}
  {s s' : σ} {exchanges : List (Exchange F ε σ)}

theorem ret_iff {x r : Except ε α} :
    Dialogue serves others (Prog.ret x) s exchanges s' r ↔ r = x ∧ exchanges = [] ∧ s' = s := by
  constructor
  · intro h
    cases h
    exact ⟨rfl, rfl, rfl⟩
  · rintro ⟨rfl, rfl, rfl⟩
    exact .ret

theorem perform_iff {c : F α} {r : Except ε α} :
    Dialogue serves others (Prog.perform c) s exchanges s' r ↔
      ∃ s1, others s s1 ∧ serves α c s1 r s' ∧ exchanges = [⟨c, s1, r, s'⟩] := by
  constructor
  · intro h
    cases h with
    | call moved served rest =>
      obtain ⟨rfl, rfl, rfl⟩ := ret_iff.mp rest
      exact ⟨_, moved, served, rfl⟩
  · rintro ⟨s1, moved, served, rfl⟩
    exact .call moved served .ret

/-- A dialogue of a sequence ends where its first part raises, or goes on with what that
returned. -/
theorem bind_iff {p : Prog F ε α} {f : α → Prog F ε β} {r : Except ε β} :
    Dialogue serves others (p >>= f) s exchanges s' r ↔
      (∃ e, Dialogue serves others p s exchanges s' (.error e) ∧ r = .error e) ∨
        ∃ a s1 first second, Dialogue serves others p s first s1 (.ok a) ∧
          Dialogue serves others (f a) s1 second s' r ∧ exchanges = first ++ second := by
  change Dialogue serves others (p.bind f) s exchanges s' r ↔ _
  induction p generalizing s exchanges with
  | ret x =>
    cases x with
    | ok a =>
      constructor
      · exact fun h => .inr ⟨a, s, [], exchanges, .ret, h, rfl⟩
      · rintro (⟨e, h, -⟩ | ⟨a', s1, first, second, h, hrest, rfl⟩)
        · cases h
        · cases h
          exact hrest
    | error e =>
      constructor
      · intro h
        obtain ⟨rfl, rfl, rfl⟩ := ret_iff.mp h
        exact .inl ⟨e, .ret, rfl⟩
      · rintro (⟨e', h, rfl⟩ | ⟨a, s1, first, second, h, -⟩)
        · cases h
          exact .ret
        · cases h
  | call c k ih =>
    constructor
    · intro h
      cases h with
      | call moved served rest =>
        rcases (ih _).mp rest with ⟨e, hraised, rfl⟩ | ⟨a, s1, first, second, hfirst, hsecond, rfl⟩
        · exact .inl ⟨e, .call moved served hraised, rfl⟩
        · exact .inr ⟨a, s1, _, second, .call moved served hfirst, hsecond, rfl⟩
    · rintro (⟨e, h, rfl⟩ | ⟨a, s1, first, second, h, hsecond, rfl⟩)
      · cases h with
        | call moved served rest => exact .call moved served ((ih _).mpr (.inl ⟨e, rest, rfl⟩))
      · cases h with
        | call moved served rest =>
          exact .call moved served ((ih _).mpr (.inr ⟨a, s1, _, second, rest, hsecond, rfl⟩))

/-- What was checked without a call is no part of the dialogue. -/
theorem ret_bind_iff {x : Except ε α} {f : α → Prog F ε β} {r : Except ε β} :
    Dialogue serves others (Prog.ret x >>= f) s exchanges s' r ↔
      (∃ e, x = .error e ∧ r = .error e ∧ exchanges = [] ∧ s' = s) ∨
        ∃ a, x = .ok a ∧ Dialogue serves others (f a) s exchanges s' r := by
  cases x with
  | ok a =>
    change Dialogue serves others (f a) s exchanges s' r ↔ _
    simp
  | error e =>
    change Dialogue serves others (Prog.ret (.error e)) s exchanges s' r ↔ _
    rw [ret_iff]
    simp

/-- The first call of a sequence is the first exchange. -/
theorem perform_bind_iff {c : F α} {f : α → Prog F ε β} {r : Except ε β} :
    Dialogue serves others (Prog.perform c >>= f) s exchanges s' r ↔
      ∃ s1 s2, others s s1 ∧
        ((∃ e, serves α c s1 (.error e) s2 ∧ exchanges = [⟨c, s1, .error e, s2⟩] ∧ s' = s2 ∧
          r = .error e) ∨
          ∃ a rest, serves α c s1 (.ok a) s2 ∧ exchanges = ⟨c, s1, .ok a, s2⟩ :: rest ∧
            Dialogue serves others (f a) s2 rest s' r) := by
  rw [bind_iff]
  constructor
  · rintro (⟨e, h, rfl⟩ | ⟨a, s2, first, rest, h, hrest, rfl⟩)
    · obtain ⟨s1, moved, served, rfl⟩ := perform_iff.mp h
      exact ⟨s1, s', moved, .inl ⟨e, served, rfl, rfl, rfl⟩⟩
    · obtain ⟨s1, moved, served, rfl⟩ := perform_iff.mp h
      exact ⟨s1, s2, moved, .inr ⟨a, rest, served, rfl, hrest⟩⟩
  · rintro ⟨s1, s2, moved, ⟨e, served, rfl, rfl, rfl⟩ | ⟨a, rest, served, rfl, hrest⟩⟩
    · exact .inl ⟨e, perform_iff.mpr ⟨s1, moved, served, rfl⟩, rfl⟩
    · exact .inr ⟨a, s2, _, rest, perform_iff.mpr ⟨s1, moved, served, rfl⟩, hrest, rfl⟩

/-- A dialogue under a handler is one that returns, or one that raises and goes on with the
handler. -/
theorem tryCatch_iff {p : Prog F ε α} {handler : ε → Prog F ε α} {r : Except ε α} :
    Dialogue serves others (p.tryCatch handler) s exchanges s' r ↔
      (∃ a, Dialogue serves others p s exchanges s' (.ok a) ∧ r = .ok a) ∨
        ∃ e s1 first second, Dialogue serves others p s first s1 (.error e) ∧
          Dialogue serves others (handler e) s1 second s' r ∧ exchanges = first ++ second := by
  induction p generalizing s exchanges with
  | ret x =>
    cases x with
    | ok a =>
      constructor
      · intro h
        obtain ⟨rfl, rfl, rfl⟩ := ret_iff.mp h
        exact .inl ⟨a, .ret, rfl⟩
      · rintro (⟨a', h, rfl⟩ | ⟨e, s1, first, second, h, -⟩)
        · cases h
          exact .ret
        · cases h
    | error e =>
      constructor
      · exact fun h => .inr ⟨e, s, [], exchanges, .ret, h, rfl⟩
      · rintro (⟨a, h, -⟩ | ⟨e', s1, first, second, h, hrest, rfl⟩)
        · cases h
        · cases h
          exact hrest
  | call c k ih =>
    constructor
    · intro h
      cases h with
      | call moved served rest =>
        rcases (ih _).mp rest with ⟨a, hreturned, rfl⟩ | ⟨e, s1, first, second, hfirst,
          hsecond, rfl⟩
        · exact .inl ⟨a, .call moved served hreturned, rfl⟩
        · exact .inr ⟨e, s1, _, second, .call moved served hfirst, hsecond, rfl⟩
    · rintro (⟨a, h, rfl⟩ | ⟨e, s1, first, second, h, hsecond, rfl⟩)
      · cases h with
        | call moved served rest => exact .call moved served ((ih _).mpr (.inl ⟨a, rest, rfl⟩))
      · cases h with
        | call moved served rest =>
          exact .call moved served ((ih _).mpr (.inr ⟨e, s1, _, second, rest, hsecond, rfl⟩))

/-- A relation that the others and the server respect holds from the start to each call, over it,
and from it to the end. -/
theorem within {R : σ → σ → Prop} [Closed R] {p : Prog F ε α} {r : Except ε α}
    (h : Dialogue serves others p s exchanges s' r) (hothers : ∀ s s', others s s' → R s s')
    (hserves : ∀ β (c : F β) s answer s', serves β c s answer s' → R s s') :
    R s s' ∧ ∀ x ∈ exchanges, R s x.before ∧ R x.before x.after ∧ R x.after s' := by
  induction h with
  | ret => exact ⟨Closed.refl _, by simp⟩
  | call moved served rest ih =>
    have hmoved := hothers _ _ moved
    have hserved := hserves _ _ _ _ _ served
    have hstep := Closed.trans hmoved hserved
    refine ⟨Closed.trans hstep ih.1, ?_⟩
    rintro x (_ | ⟨_, hx⟩)
    · exact ⟨hmoved, hserved, ih.1⟩
    · obtain ⟨hto, hover, hfrom⟩ := ih.2 x hx
      exact ⟨Closed.trans hstep hto, hover, hfrom⟩

end Dialogue

end AssetStore.Lib
