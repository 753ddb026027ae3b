import AssetStore.Lib.Fallible

/-! Triples for fallible computations: what holds where a computation returns, and what holds where
it raises. For computations that keep a log, `Safe` says that every entry was allowed by the entries
before it, and `Since` that something has been logged since the last marker. -/

namespace AssetStore.Lib

variable {ε σ α β : Type}

/-- Started where `P` holds, the computation returns where `Q` holds or raises where `X` holds. -/
def Triple (P : σ → Prop) (m : EStateM ε σ α) (Q : α → σ → Prop) (X : σ → Prop) : Prop :=
  ∀ s, P s → (∀ a s', m s = .ok a s' → Q a s') ∧ ∀ e s', m s = .error e s' → X s'

/-- What a computation did, as a value. -/
def outcome (m : EStateM ε σ α) : EStateM ε σ (Except ε α) := fun s =>
  match m s with
  | .ok a s' => .ok (.ok a) s'
  | .error e s' => .ok (.error e) s'

/-- The computation with its errors translated. -/
def translated (f : ε → ε) (m : EStateM ε σ α) : EStateM ε σ α := fun s =>
  match m s with
  | .ok a s' => .ok a s'
  | .error e s' => .error (f e) s'

/-- The computation followed by a step that is made however it ends. -/
def lastly (m : EStateM ε σ α) (step : σ → σ) : EStateM ε σ α := fun s =>
  match m s with
  | .ok a s' => .ok a (step s')
  | .error e s' => .error e (step s')

namespace Triple

variable {P P' : σ → Prop} {Q Q' : α → σ → Prop} {X X' : σ → Prop}

theorem final (h : Triple P m (fun _ => X) X) {s : σ} (hs : P s) : X (final (m s)) := by
  obtain ⟨hok, herror⟩ := h s hs
  cases hm : m s with
  | ok a s' => exact hok a s' hm
  | error e s' => exact herror e s' hm

theorem weaken {m : EStateM ε σ α} (h : Triple P m Q X) (pre : ∀ s, P' s → P s)
    (post : ∀ a s, Q a s → Q' a s) (raised : ∀ s, X s → X' s) : Triple P' m Q' X' := by
  intro s hs
  obtain ⟨hok, herror⟩ := h s (pre s hs)
  exact ⟨fun a s' hm => post a s' (hok a s' hm), fun e s' hm => raised s' (herror e s' hm)⟩

/-- A computation that returned is one that returned. -/
theorem recorded {m : EStateM ε σ α} (h : Triple P m Q X) :
    Triple P m (fun a s => Q a s ∧ ∃ start, m start = .ok a s) X := by
  intro s hs
  obtain ⟨hok, herror⟩ := h s hs
  exact ⟨fun a s' hm => ⟨hok a s' hm, s, hm⟩, herror⟩

theorem pure {a : α} (h : ∀ s, P s → Q a s) : Triple P (pure a : EStateM ε σ α) Q X := by
  intro s hs
  refine ⟨fun b s' hm => ?_, fun e s' hm => (pure_ne_error.mp hm).elim⟩
  obtain ⟨rfl, rfl⟩ := pure_eq_ok.mp hm
  exact h s hs

theorem attempt {x : Except ε α} (returned : ∀ a s, x = .ok a → P s → Q a s)
    (raised : ∀ e s, x = .error e → P s → X s) : Triple P (attempt x : EStateM ε σ α) Q X := by
  intro s hs
  refine ⟨fun a s' hm => ?_, fun e s' hm => ?_⟩
  · obtain ⟨hx, rfl⟩ := attempt_eq_ok.mp hm
    exact returned a s hx hs
  · obtain ⟨hx, rfl⟩ := attempt_eq_error.mp hm
    exact raised e s hx hs

/-- A check that leaves the state alone. -/
theorem check {x : Except ε α} : Triple P (Lib.attempt x : EStateM ε σ α) (fun _ => P) P :=
  attempt (fun _ _ _ hs => hs) fun _ _ _ hs => hs

theorem bind {x : EStateM ε σ α} {f : α → EStateM ε σ β} {R : β → σ → Prop} (hx : Triple P x Q X)
    (hf : ∀ a, Triple (Q a) (f a) R X) : Triple P (x >>= f) R X := by
  intro s hs
  obtain ⟨hok, herror⟩ := hx s hs
  refine ⟨fun b s' hm => ?_, fun e s' hm => ?_⟩
  · obtain ⟨a, s1, ha, hb⟩ := bind_eq_ok.mp hm
    exact (hf a s1 (hok a s1 ha)).1 b s' hb
  · rcases bind_eq_error.mp hm with he | ⟨a, s1, ha, he⟩
    · exact herror e s' he
    · exact (hf a s1 (hok a s1 ha)).2 e s' he

theorem ite {c : Prop} [Decidable c] {x y : EStateM ε σ α} (hx : c → Triple P x Q X)
    (hy : ¬c → Triple P y Q X) : Triple P (if c then x else y) Q X := by
  split
  · exact hx ‹_›
  · exact hy ‹_›

theorem outcome {m : EStateM ε σ α} (h : Triple P m (fun _ => X) X) :
    Triple P (outcome m) (fun _ => X) X := by
  intro s hs
  obtain ⟨hok, herror⟩ := h s hs
  unfold Lib.outcome
  cases hm : m s with
  | ok a s1 => exact ⟨fun _ s' h => by cases h; exact hok a s1 hm, fun _ _ h => by cases h⟩
  | error e s1 => exact ⟨fun _ s' h => by cases h; exact herror e s1 hm, fun _ _ h => by cases h⟩

theorem translated {f : ε → ε} {m : EStateM ε σ α} (h : Triple P m Q X) :
    Triple P (translated f m) Q X := by
  intro s hs
  obtain ⟨hok, herror⟩ := h s hs
  unfold Lib.translated
  cases hm : m s with
  | ok a s1 => exact ⟨fun _ _ h => by cases h; exact hok a s1 hm, fun _ _ h => by cases h⟩
  | error e s1 => exact ⟨fun _ _ h => (by cases h), fun _ _ h => by cases h; exact herror e s1 hm⟩

theorem lastly {m : EStateM ε σ α} {step : σ → σ} {Q' : α → σ → Prop} (h : Triple P m Q X)
    (returned : ∀ a s, Q a s → Q' a (step s)) (raised : ∀ s, X s → X' (step s)) :
    Triple P (lastly m step) Q' X' := by
  intro s hs
  obtain ⟨hok, herror⟩ := h s hs
  unfold Lib.lastly
  cases hm : m s with
  | ok a s1 =>
    exact ⟨fun _ _ h => by cases h; exact returned a s1 (hok a s1 hm), fun _ _ h => by cases h⟩
  | error e s1 =>
    exact ⟨fun _ _ h => (by cases h), fun _ _ h => by cases h; exact raised s1 (herror e s1 hm)⟩

end Triple

/-! ### Logs -/

section Logs

variable {E : Type} {allowed : List E → E → Prop} {log : List E} {e : E}

/-- Adds an entry to the log. -/
def emit (e : E) : EStateM ε (List E) Unit := fun log => .ok () (log ++ [e])

theorem Triple.emit {P X : List E → Prop} {Q : Unit → List E → Prop}
    (h : ∀ log, P log → Q () (log ++ [e])) : Triple P (emit e : EStateM ε (List E) Unit) Q X := by
  intro log hlog
  refine ⟨fun _ _ hm => ?_, fun _ _ hm => by cases hm⟩
  cases hm
  exact h log hlog

/-- Reads the log. -/
theorem Triple.reading {P X : List E → Prop} {Q : α → List E → Prop}
    {f : List E → EStateM ε (List E) α}
    (h : ∀ log, Triple (fun l => l = log ∧ P l) (f log) Q X) :
    Triple P ((get : EStateM ε (List E) (List E)) >>= f) Q X :=
      fun log hlog => h log log ⟨rfl, hlog⟩

/-- Every entry of the log was allowed by the entries before it. -/
inductive Safe (allowed : List E → E → Prop) : List E → Prop
  | nil : Safe allowed []
  | snoc {log : List E} {e : E} (before : Safe allowed log) (ok : allowed log e) :
      Safe allowed (log ++ [e])

theorem Safe.allowed_of_eq (h : Safe allowed log) :
    ∀ {before after : List E}, log = before ++ e :: after → allowed before e := by
  induction h with
  | nil =>
    intro before after heq
    simp at heq
  | @snoc log last _ ok ih =>
    intro before after heq
    rcases List.eq_nil_or_concat after with rfl | ⟨init, x, rfl⟩
    · obtain ⟨rfl, hlast⟩ := List.append_inj' heq rfl
      obtain rfl : last = e := List.cons.inj hlast |>.1
      exact ok
    · rw [List.concat_eq_append, ← List.cons_append, ← List.append_assoc] at heq
      exact ih (List.append_inj' heq rfl).1

/-- The last marker of the log is `m`, and what has been logged since meets `P`. -/
def Since (mark : E → Prop) (m : E) (P : List E → Prop) (log : List E) : Prop :=
  ∃ pre mid, log = pre ++ m :: mid ∧ (∀ e ∈ mid, ¬mark e) ∧ P mid

theorem Since.start {mark : E → Prop} {m : E} {P : List E → Prop} (h : P []) :
    Since mark m P (log ++ [m]) := ⟨log, [], rfl, by simp, h⟩

theorem Since.snoc {mark : E → Prop} {m : E} {P P' : List E → Prop} (h : Since mark m P log)
    (quiet : ¬mark e) (step : ∀ mid, P mid → P' (mid ++ [e])) : Since mark m P' (log ++ [e]) := by
  obtain ⟨pre, mid, rfl, hmid, hP⟩ := h
  refine ⟨pre, mid ++ [e], by simp, fun e' he' => ?_, step mid hP⟩
  rcases List.mem_append.mp he' with he' | he'
  · exact hmid e' he'
  · obtain rfl := List.mem_singleton.mp he'
    exact quiet

end Logs

end AssetStore.Lib
