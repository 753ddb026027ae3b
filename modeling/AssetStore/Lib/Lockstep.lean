import AssetStore.Lib.Fallible

/-! Two fallible computations side by side. Their outcomes agree when both return or both raise,
with related values, errors and states. The rules take the computations apart step by step, on both
sides at once or on one side alone, and follow two machines through a list of inputs. -/

namespace AssetStore.Lib

variable {ε ε' σ σ' α α' β β' : Type}

/-- Both outcomes are results that `ok` relates, or errors that `err` relates. -/
inductive Agree (ok : α → β → σ → σ' → Prop) (err : ε → ε' → σ → σ' → Prop) :
    EStateM.Result ε σ α → EStateM.Result ε' σ' β → Prop
  | returned {a : α} {b : β} {s : σ} {t : σ'} (h : ok a b s t) : Agree ok err (.ok a s) (.ok b t)
  | raised {e : ε} {e' : ε'} {s : σ} {t : σ'} (h : err e e' s t) :
      Agree ok err (.error e s) (.error e' t)

namespace Agree

variable {ok : α → β → σ → σ' → Prop} {err : ε → ε' → σ → σ' → Prop}

/-- The next step is taken on both sides. -/
theorem bind {ok' : α' → β' → σ → σ' → Prop} {x : EStateM ε σ α'} {y : EStateM ε' σ' β'}
    {f : α' → EStateM ε σ α}
    {g : β' → EStateM ε' σ' β} {s : σ} {t : σ'} (first : Agree ok' err (x s) (y t))
    (rest : ∀ a b s' t', ok' a b s' t' → Agree ok err (f a s') (g b t')) :
    Agree ok err ((x >>= f) s) ((y >>= g) t) := by
  cases hx : x s with
  | ok a s' =>
    cases hy : y t with
    | ok b t' =>
      rw [hx, hy] at first
      cases first with
      | returned h =>
        rw [bind_of_ok hx, bind_of_ok hy]
        exact rest a b s' t' h
    | error e t' =>
      rw [hx, hy] at first
      cases first
  | error e s' =>
    cases hy : y t with
    | ok b t' =>
      rw [hx, hy] at first
      cases first
    | error e' t' =>
      rw [hx, hy] at first
      cases first with
      | raised h =>
        rw [bind_of_error hx, bind_of_error hy]
        exact .raised h

/-- A step that only the left side takes. -/
theorem left {x : EStateM ε σ α'} {f : α' → EStateM ε σ α} {s s' : σ} {a : α'}
    {y : EStateM.Result ε' σ' β}
    (step : x s = .ok a s') (rest : Agree ok err (f a s') y) : Agree ok err ((x >>= f) s) y := by
  rw [bind_of_ok step]
  exact rest

/-- A step that only the right side takes. -/
theorem right {y : EStateM ε' σ' β'} {g : β' → EStateM ε' σ' β} {t t' : σ'} {b : β'}
    {x : EStateM.Result ε σ α}
    (step : y t = .ok b t') (rest : Agree ok err x (g b t')) : Agree ok err x ((y >>= g) t) := by
  rw [bind_of_ok step]
  exact rest

end Agree

/-! ### Machines -/

variable {I S T : Type}

/-- Each input is allowed in the state in which it is taken. -/
def AllowedAlong (g : T → I → T) (Allowed : T → I → Prop) : T → List I → Prop
  | _, [] => True
  | t, i :: rest => Allowed t i ∧ AllowedAlong g Allowed (g t i) rest

theorem allowedAlong_append {g : T → I → T} {Allowed : T → I → Prop} :
    ∀ {first rest : List I} {t : T}, AllowedAlong g Allowed t (first ++ rest) ↔
      AllowedAlong g Allowed t first ∧ AllowedAlong g Allowed (first.foldl g t) rest
  | [], _, _ => Iff.symm (and_iff_right trivial)
  | i :: first, rest, t => by
    simp only [List.cons_append, AllowedAlong, List.foldl_cons, allowedAlong_append, and_assoc]

/-- What every allowed input satisfies, all inputs do. -/
theorem AllowedAlong.forall_mem {g : T → I → T} {Allowed : T → I → Prop} {P : I → Prop}
    (h : ∀ t i, Allowed t i → P i) : ∀ {inputs : List I} {t : T}, AllowedAlong g Allowed t inputs →
      ∀ i ∈ inputs, P i
  | [], _, _, _, hi => by cases hi
  | _ :: _, _, allowed, i, hi => by
    rcases List.mem_cons.mp hi with rfl | hrest
    · exact h _ _ allowed.1
    · exact forall_mem h allowed.2 i hrest

/-- Two machines that take the same inputs stay related while the inputs are allowed. -/
theorem foldl_related {f : S → I → S} {g : T → I → T} {R : S → T → Prop} {Allowed : T → I → Prop}
    (step : ∀ s t i, R s t → Allowed t i → R (f s i) (g t i)) :
    ∀ (inputs : List I) (s : S) (t : T), R s t → AllowedAlong g Allowed t inputs →
      R (inputs.foldl f s) (inputs.foldl g t)
  | [], _, _, h, _ => h
  | i :: rest, s, t, h, allowed => by
    have hfirst : R (f s i) (g t i) := step s t i h allowed.1
    exact foldl_related step rest (f s i) (g t i) hfirst allowed.2

end AssetStore.Lib
