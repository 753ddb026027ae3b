import Mathlib.Data.Option.Basic
import Mathlib.Tactic.Common

/-! Fallible computations: `Except`, and `EStateM`, where an exception keeps the state that the
computation had reached when it was raised. The lemmas take a sequence of steps apart into the
outcomes of its steps. -/

namespace AssetStore.Lib

variable {ε σ α β : Type}

/-- Raises `e` when `c` holds. -/
def raiseIf (c : Prop) [Decidable c] (e : ε) : Except ε Unit := if c then .error e else .ok ()

@[simp] theorem raiseIf_eq_ok {c : Prop} [Decidable c] {e : ε} {u : Unit} :
    raiseIf c e = .ok u ↔ ¬c := by
  unfold raiseIf
  split <;> simp_all

@[simp] theorem raiseIf_eq_error {c : Prop} [Decidable c] {e e' : ε} :
    raiseIf c e = .error e' ↔ c ∧ e = e' := by
  unfold raiseIf
  split <;> simp_all

/-- Raises `e` when there is no value. -/
def someOr (x : Option α) (e : ε) : Except ε α := x.elim (.error e) .ok

@[simp] theorem someOr_eq_ok {x : Option α} {e : ε} {a : α} : someOr x e = .ok a ↔ x = some a := by
  cases x <;> simp [someOr]

@[simp] theorem someOr_eq_error {x : Option α} {e e' : ε} :
    someOr x e = .error e' ↔ x = none ∧ e = e' := by
  cases x <;> simp [someOr]

theorem guarded_eq_some {p : Prop} [Decidable p] {a b : α} :
    (do guard p; return a : Option α) = some b ↔ p ∧ a = b := by
  by_cases h : p <;> simp [guard, h]

@[simp] theorem except_bind_eq_ok {x : Except ε α} {f : α → Except ε β} {b : β} :
    x >>= f = .ok b ↔ ∃ a, x = .ok a ∧ f a = .ok b := by
  cases x <;> simp [bind, Except.bind]

@[simp] theorem except_bind_eq_error {x : Except ε α} {f : α → Except ε β} {e : ε} :
    x >>= f = .error e ↔ x = .error e ∨ ∃ a, x = .ok a ∧ f a = .error e := by
  cases x <;> simp [bind, Except.bind]

@[simp] theorem except_pure_eq_ok {a b : α} : (pure a : Except ε α) = .ok b ↔ a = b := by
  simp [pure, Except.pure]

@[simp] theorem except_pure_ne_error {a : α} {e : ε} :
    (pure a : Except ε α) = .error e ↔ False := by
  simp [pure, Except.pure]

@[simp] theorem except_map_eq_ok {x : Except ε α} {f : α → β} {b : β} :
    f <$> x = .ok b ↔ ∃ a, x = .ok a ∧ f a = b := by
  cases x <;> simp [Functor.map, Except.map]

@[simp] theorem except_map_eq_error {x : Except ε α} {f : α → β} {e : ε} :
    f <$> x = .error e ↔ x = .error e := by
  cases x <;> simp [Functor.map, Except.map]

/-- A check of the value that a computation returns shows that it returns one. -/
theorem exists_ok_of_any {x : Except ε α} {P : α → Bool} (h : x.toOption.any P = true) :
    ∃ a, x = .ok a ∧ P a = true := by
  cases x with
  | error e => cases h
  | ok a => exact ⟨a, rfl, h⟩

/-- A computation is done for every element or for none. -/
theorem mapM_returns {f : α → Except ε β} {xs : List α} :
    (∃ ys, xs.mapM f = .ok ys) ↔ ∀ x ∈ xs, ∃ y, f x = .ok y := by
  induction xs with
  | nil => simp
  | cons x xs ih =>
    rw [List.forall_mem_cons, ← ih]
    constructor
    · rintro ⟨ys, hys⟩
      simp only [List.mapM_cons, except_bind_eq_ok] at hys
      obtain ⟨y, hy, ys', hys', -⟩ := hys
      exact ⟨⟨y, hy⟩, ys', hys'⟩
    · rintro ⟨⟨y, hy⟩, ys, hys⟩
      refine ⟨y :: ys, ?_⟩
      simp only [List.mapM_cons, except_bind_eq_ok]
      exact ⟨y, hy, ys, hys, rfl⟩

theorem mapM_of_ok {f : α → Except ε β} {g : α → β} :
    ∀ {xs : List α}, (∀ x ∈ xs, f x = .ok (g x)) → xs.mapM f = .ok (xs.map g)
  | [], _ => rfl
  | x :: xs, h => by
    rw [List.mapM_cons, h x (by simp), mapM_of_ok fun y hy => h y (by simp [hy])]
    rfl

/-- What each step keeps, the whole loop keeps. -/
theorem foldlM_invariant {f : β → α → Except ε β} {P : β → Prop} {xs : List α} {b b' : β}
    (start : P b)
    (step : ∀ b x b', P b → f b x = .ok b' → P b') (h : xs.foldlM f b = .ok b') : P b' := by
  induction xs generalizing b with
  | nil => exact Except.ok.inj h ▸ start
  | cons x xs ih =>
    rw [List.foldlM_cons, except_bind_eq_ok] at h
    obtain ⟨b1, h1, hrest⟩ := h
    exact ih (step b x b1 start h1) hrest

/-- A computation that only reads its arguments, as one with a state. -/
def attempt (x : Except ε α) : EStateM ε σ α := fun s =>
  match x with
  | .ok a => .ok a s
  | .error e => .error e s

@[simp] theorem attempt_eq_ok {x : Except ε α} {s s' : σ} {a : α} :
    attempt x s = .ok a s' ↔ x = .ok a ∧ s = s' := by
  cases x <;> simp [attempt]

@[simp] theorem attempt_eq_error {x : Except ε α} {s s' : σ} {e : ε} :
    attempt x s = .error e s' ↔ x = .error e ∧ s = s' := by
  cases x <;> simp [attempt]

@[simp] theorem bind_eq_ok {x : EStateM ε σ α} {f : α → EStateM ε σ β} {s s'' : σ} {b : β} :
    (x >>= f) s = .ok b s'' ↔ ∃ a s', x s = .ok a s' ∧ f a s' = .ok b s'' := by
  change EStateM.bind x f s = _ ↔ _
  unfold EStateM.bind
  cases h : x s <;> simp

@[simp] theorem bind_eq_error {x : EStateM ε σ α} {f : α → EStateM ε σ β} {s s'' : σ} {e : ε} :
    (x >>= f) s = .error e s'' ↔
      x s = .error e s'' ∨ ∃ a s', x s = .ok a s' ∧ f a s' = .error e s'' := by
  change EStateM.bind x f s = _ ↔ _
  unfold EStateM.bind
  cases h : x s <;> simp

@[simp] theorem pure_eq_ok {a b : α} {s s' : σ} :
    (pure a : EStateM ε σ α) s = .ok b s' ↔ a = b ∧ s = s' := by
  change EStateM.pure a s = _ ↔ _
  simp [EStateM.pure]

@[simp] theorem pure_ne_error {a : α} {s s' : σ} {e : ε} :
    (pure a : EStateM ε σ α) s = .error e s' ↔ False := by
  change EStateM.pure a s = _ ↔ _
  simp [EStateM.pure]

theorem get_eq (s : σ) : (get : EStateM ε σ σ) s = .ok s s := rfl

theorem bind_of_ok {x : EStateM ε σ α} {f : α → EStateM ε σ β} {s s' : σ} {a : α}
    (h : x s = .ok a s') : (x >>= f) s = f a s' := by
  change EStateM.bind x f s = _
  simp [EStateM.bind, h]

theorem attempt_of_ok {x : Except ε α} {s : σ} {a : α} (h : x = .ok a) :
    attempt x s = .ok a s := by
  simp [h]

theorem bind_of_error {x : EStateM ε σ α} {f : α → EStateM ε σ β} {s s' : σ} {e : ε}
    (h : x s = .error e s') : (x >>= f) s = .error e s' := by
  change EStateM.bind x f s = _
  simp [EStateM.bind, h]

theorem bind_attempt {x : Except ε α} {y : EStateM ε σ α} {f : α → EStateM ε σ β}
    {g : α → Except ε β} {s : σ} (hy : y s = attempt x s) (h : ∀ a, f a s = attempt (g a) s) :
    (y >>= f) s = attempt (x >>= g) s := by
  cases x with
  | ok a => exact (bind_of_ok hy).trans (h a)
  | error e => exact bind_of_error hy

theorem tryCatch_of_ok {x : EStateM ε σ α} {handler : ε → EStateM ε σ α} {s s' : σ} {a : α}
    (h : x s = .ok a s') : (tryCatch x handler : EStateM ε σ α) s = .ok a s' := by
  change EStateM.tryCatch x handler s = _
  simp [EStateM.tryCatch, h]

theorem tryCatch_of_error {x : EStateM ε σ α} {handler : ε → EStateM ε σ α} {s s' : σ} {e : ε}
    (h : x s = .error e s') : (tryCatch x handler : EStateM ε σ α) s = handler e s' := by
  change EStateM.tryCatch x handler s = _
  simp only [EStateM.tryCatch, h]
  rfl

/-- Whether a computation returned, with a value and a state that meet `P`. -/
def returns (P : α → σ → Bool) : EStateM.Result ε σ α → Bool
  | .ok a s => P a s
  | .error _ _ => false

theorem exists_ok_of_returns {P : α → σ → Bool} {r : EStateM.Result ε σ α}
    (h : returns P r = true) :
    ∃ a s, r = .ok a s ∧ P a s = true := by
  cases r with
  | ok a s => exact ⟨a, s, rfl, h⟩
  | error e s => cases h

/-- Whether a computation raised, with an error and a state that meet `P`. -/
def raises (P : ε → σ → Bool) : EStateM.Result ε σ α → Bool
  | .ok _ _ => false
  | .error e s => P e s

theorem exists_error_of_raises {P : ε → σ → Bool} {r : EStateM.Result ε σ α}
    (h : raises P r = true) :
    ∃ e s, r = .error e s ∧ P e s = true := by
  cases r with
  | ok a s => cases h
  | error e s => exact ⟨e, s, rfl, h⟩

/-- The state that a computation leaves, whether it returns or raises. -/
def final : EStateM.Result ε σ α → σ
  | .ok _ s => s
  | .error _ s => s

@[simp] theorem final_ok {a : α} {s : σ} : final (.ok a s : EStateM.Result ε σ α) = s := rfl

@[simp] theorem final_error {e : ε} {s : σ} : final (.error e s : EStateM.Result ε σ α) = s := rfl

@[simp] theorem final_pure {a : α} {s : σ} : final ((pure a : EStateM ε σ α) s) = s := rfl

@[simp] theorem final_attempt {x : Except ε α} {s : σ} : final (attempt x s) = s := by
  cases x <;> rfl

@[simp] theorem final_map {x : EStateM ε σ α} {f : α → β} {s : σ} :
    final ((f <$> x) s) = final (x s) := by
  change final (EStateM.map f x s) = _
  unfold EStateM.map
  cases x s <;> rfl

@[simp] theorem final_bind_pure {x : EStateM ε σ α} {f : α → β} {s : σ} :
    final ((x >>= fun a => pure (f a)) s) = final (x s) := by
  change final (EStateM.bind x _ s) = _
  unfold EStateM.bind
  cases x s <;> rfl

/-- What a sequence of two computations leaves is left by the first, when it raises, or by the
second. -/
theorem final_bind {x : EStateM ε σ α} {f : α → EStateM ε σ β} {s : σ} {P : σ → Prop}
    (raised : ∀ e s', x s = .error e s' → P s')
    (returned : ∀ a s', x s = .ok a s' → P (final (f a s'))) : P (final ((x >>= f) s)) := by
  change P (final (EStateM.bind x f s))
  unfold EStateM.bind
  cases h : x s with
  | ok a s' => exact returned a s' h
  | error e s' => exact raised e s' h

/-! ### Frames -/

/-- What a state may become over any number of steps. -/
class Closed (R : σ → σ → Prop) : Prop where
  refl : ∀ s, R s s
  trans : ∀ {s s' s''}, R s s' → R s' s'' → R s s''

/-- The computation changes the state within the relation, whether it returns or raises. -/
def Within (R : σ → σ → Prop) (m : EStateM ε σ α) : Prop := ∀ s, R s (final (m s))

namespace Within

variable {R : σ → σ → Prop}

theorem ok {m : EStateM ε σ α} (h : Within R m) {s s' : σ} {a : α} (hm : m s = .ok a s') :
    R s s' := by
  have := h s
  rwa [hm] at this

theorem error {m : EStateM ε σ α} (h : Within R m) {s s' : σ} {e : ε} (hm : m s = .error e s') :
    R s s' := by
  have := h s
  rwa [hm] at this

theorem ite {c : Prop} [Decidable c] {x y : EStateM ε σ α} (hx : Within R x) (hy : Within R y) :
    Within R (if c then x else y) := by
  split
  · exact hx
  · exact hy

variable [Closed R]

theorem bind {x : EStateM ε σ α} {g : α → EStateM ε σ β} (hx : Within R x)
    (hg : ∀ a, Within R (g a)) : Within R (x >>= g) := fun s =>
  final_bind (P := fun s' => R s s') (fun _ _ h => hx.error h)
    fun a s' h => Closed.trans (hx.ok h) (hg a s')

theorem pure {a : α} : Within R (pure a : EStateM ε σ α) := Closed.refl

theorem attempt {x : Except ε α} : Within R (attempt x : EStateM ε σ α) := fun s => by
  rw [final_attempt]
  exact Closed.refl s

/-- What comes after a check may use that it has passed. -/
theorem attempt_bind {x : Except ε α} {g : α → EStateM ε σ β}
    (hg : ∀ a, x = .ok a → Within R (g a)) : Within R (Lib.attempt x >>= g) := fun s =>
  final_bind (P := fun s' => R s s') (fun _ _ h => attempt.error h) fun a s' h => by
    obtain ⟨hx, rfl⟩ := attempt_eq_ok.mp h
    exact hg a hx s

/-- An exception keeps the state that the computation had reached, and the handler goes on from
it. -/
theorem tryCatch {x : EStateM ε σ α} {handler : ε → EStateM ε σ α} (hx : Within R x)
    (hh : ∀ e, Within R (handler e)) : Within R (MonadExcept.tryCatch x handler) := by
  intro s
  change R s (final (EStateM.tryCatch x handler s))
  unfold EStateM.tryCatch
  cases h : x s with
  | ok a s' => exact hx.ok h
  | error e s' => exact Closed.trans (hx.error h) (hh e s')

end Within

/-! ### Raising -/

/-- The computation does not raise in this state. -/
def NoRaise (m : EStateM ε σ α) (s : σ) : Prop := ∀ e s', m s ≠ .error e s'

theorem NoRaise.of_ok {m : EStateM ε σ α} {s s' : σ} {a : α} (h : m s = .ok a s') :
    NoRaise m s := by
  intro e s'' he
  rw [h] at he
  cases he

theorem NoRaise.pure {a : α} {s : σ} : NoRaise (pure a : EStateM ε σ α) s := .of_ok rfl

theorem NoRaise.bind {x : EStateM ε σ α} {f : α → EStateM ε σ β} {s : σ} (hx : NoRaise x s)
    (hf : ∀ a s', x s = .ok a s' → NoRaise (f a) s') : NoRaise (x >>= f) s := by
  intro e s' h
  rcases bind_eq_error.mp h with h | ⟨a, s1, ha, h⟩
  · exact hx e s' h
  · exact hf a s1 ha e s' h

theorem NoRaise.ite {c : Prop} [Decidable c] {x y : EStateM ε σ α} {s : σ} (hx : c → NoRaise x s)
    (hy : ¬c → NoRaise y s) : NoRaise (if c then x else y) s := by
  split
  · exact hx ‹_›
  · exact hy ‹_›

/-- When the computation raises, it has stayed within the relation. -/
def RaisesWithin (R : σ → σ → Prop) (m : EStateM ε σ α) (s : σ) : Prop :=
  ∀ e s', m s = .error e s' → R s s'

namespace RaisesWithin

variable {R : σ → σ → Prop} {s : σ}

theorem of_within {m : EStateM ε σ α} (h : Within R m) : RaisesWithin R m s := fun _ _ => h.error

theorem of_noRaise {m : EStateM ε σ α} (h : NoRaise m s) : RaisesWithin R m s :=
  fun e s' he => absurd he (h e s')

/-- Checks first: what raises after them must raise before it changes anything else. -/
theorem bind [Closed R] {x : EStateM ε σ α} {f : α → EStateM ε σ β} (hx : Within R x)
    (hf : ∀ a s', x s = .ok a s' → RaisesWithin R (f a) s') : RaisesWithin R (x >>= f) s := by
  intro e s' h
  rcases bind_eq_error.mp h with h | ⟨a, s1, ha, h⟩
  · exact hx.error h
  · exact Closed.trans (hx.ok ha) (hf a s1 ha e s' h)

end RaisesWithin

end AssetStore.Lib
