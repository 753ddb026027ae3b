import AssetStore.Lib.Threads

/-! Programs with atomic blocks. Some commands begin a block and some end it, depending on what
they return or raise. Threads take turns, and a turn is one command outside of a block, or a whole
block. -/

namespace AssetStore.Lib

universe u

variable {F : Type → Type u} {ε σ α β γ : Type}

/-- What a computation returned or raised, and the state that it left. -/
def resultOf : EStateM.Result ε σ α → Except ε α × σ
  | .ok a s => (.ok a, s)
  | .error e s => (.error e, s)

@[simp] theorem resultOf_snd (r : EStateM.Result ε σ α) : (resultOf r).2 = final r := by
  cases r <;> rfl

/-- What begins a block and what ends it. -/
structure Brackets (F : Type → Type u) (ε : Type) where
  enters : {β : Type} → F β → Except ε β → Bool
  leaves : {β : Type} → F β → Except ε β → Bool

namespace Prog

/-- Continues with `k`, whether the program returns or raises. -/
def andThen : Prog F ε α → (Except ε α → Prog F ε β) → Prog F ε β
  | ret r, k => k r
  | call c k', k => call c fun r => (k' r).andThen k

/-- Continues a program that returns. -/
def onOk (f : α → Prog F ε β) : Except ε α → Prog F ε β
  | .ok a => f a
  | .error e => ret (.error e)

/-- Continues a program that raises. -/
def onError (handler : ε → Prog F ε α) : Except ε α → Prog F ε α
  | .ok a => ret (.ok a)
  | .error e => handler e

theorem bind_eq_andThen (p : Prog F ε α) (f : α → Prog F ε β) : p >>= f = p.andThen (onOk f) := by
  change p.bind f = _
  induction p with
  | ret r => cases r <;> rfl
  | call c k ih => exact congrArg (call c) (funext ih)

theorem tryCatch_eq_andThen (p : Prog F ε α) (handler : ε → Prog F ε α) :
    p.tryCatch handler = p.andThen (onError handler) := by
  induction p with
  | ret r => cases r <;> rfl
  | call c k ih => exact congrArg (call c) (funext ih)

theorem andThen_assoc (p : Prog F ε α) (k : Except ε α → Prog F ε β)
    (k' : Except ε β → Prog F ε γ) :
    (p.andThen k).andThen k' = p.andThen fun r => (k r).andThen k' := by
  induction p with
  | ret r => rfl
  | call c k'' ih => exact congrArg (call c) (funext ih)

theorem andThen_ret (p : Prog F ε α) : p.andThen ret = p := by
  induction p with
  | ret r => rfl
  | call c k ih => exact congrArg (call c) (funext ih)

variable (B : Brackets F ε) (sem : (β : Type) → F β → EStateM ε σ β)

/-- Executes the program to the end of the block that it is in. -/
def throughBlock : Prog F ε α → σ → Prog F ε α × σ
  | ret r, s => (ret r, s)
  | call c k, s =>
    let out := resultOf (sem _ c s)
    if B.leaves c out.1 then (k out.1, out.2) else (k out.1).throughBlock out.2

/-- Executes the next command of the program, or the whole block that it begins. -/
def turn : Prog F ε α → σ → Prog F ε α × σ
  | ret r, s => (ret r, s)
  | call c k, s =>
    let out := resultOf (sem _ c s)
    if B.enters c out.1 then (k out.1).throughBlock B sem out.2 else (k out.1, out.2)

/-- The program takes exactly one turn, whatever follows it. -/
def Atomic (p : Prog F ε α) : Prop :=
  ∀ {γ : Type} (k : Except ε α → Prog F ε γ) (s : σ),
    (p.andThen k).turn B sem s = (k (resultOf (p.run sem s)).1, (resultOf (p.run sem s)).2)

/-- The end of the block is the last command of the program. -/
def EndsBlock : Prog F ε α → Prop
  | ret _ => False
  | call c k =>
    ∀ r, B.leaves c r = true ∧ (∃ r', k r = ret r') ∨ B.leaves c r = false ∧ (k r).EndsBlock

variable {B sem}

theorem EndsBlock.throughBlock {p : Prog F ε α} (h : p.EndsBlock B) (k : Except ε α → Prog F ε γ)
    (s : σ) : (p.andThen k).throughBlock B sem s =
      (k (resultOf (p.run sem s)).1, (resultOf (p.run sem s)).2) := by
  induction p generalizing s with
  | ret r => exact h.elim
  | call c k' ih =>
    have hstep : (call c k').run sem s =
        (k' (resultOf (sem _ c s)).1).run sem (resultOf (sem _ c s)).2 := by
      simp only [run]
      cases sem _ c s <;> rfl
    rw [hstep]
    simp only [andThen, Prog.throughBlock]
    rcases h (resultOf (sem _ c s)).1 with ⟨hleaves, r', hr'⟩ | ⟨hstays, hrest⟩
    · rw [if_pos hleaves, hr', run_ret]
      cases r' <;> rfl
    · rw [if_neg (by simp [hstays])]
      exact ih _ hrest _

/-- A command that begins no block is atomic. -/
theorem Atomic.perform {c : F α} (h : ∀ r, B.enters c r = false) : (perform c).Atomic B sem := by
  intro γ k s
  change (call c k).turn B sem s = _
  rw [run_perform, turn]
  simp only [h, Bool.false_eq_true, if_false]

/-- A block is atomic. -/
theorem Atomic.block {c : F α} {k' : α → Prog F ε β} (raised : ∀ e, B.enters c (.error e) = false)
    (returned : ∀ a, B.enters c (.ok a) = true ∧ (k' a).EndsBlock B) :
    (Prog.perform c >>= k').Atomic B sem := by
  intro γ k s
  have hprog : (Prog.perform c >>= k').andThen k = call c fun r => (onOk k' r).andThen k := by
    rw [bind_eq_andThen, andThen_assoc]
    rfl
  rw [hprog, run_bind, run_perform, turn]
  change _ = (k (resultOf (EStateM.bind (sem _ c) _ s)).1,
    (resultOf (EStateM.bind (sem _ c) _ s)).2)
  unfold EStateM.bind
  cases hc : sem _ c s with
  | ok a s' =>
    simp only [resultOf, (returned a).1, if_true]
    exact (returned a).2.throughBlock k s'
  | error e s' =>
    simp only [resultOf, raised, Bool.false_eq_true, if_false]
    rfl

/-- A program that raises nothing before its end leaves the block there, or in its cleanup. -/
theorem EndsBlock.cleaningUp {p : Prog F ε β} {last : β → F α} {quit : F Unit}
    (hp : p.All (fun _ c => ∀ r, B.leaves c r = false) fun _ => True)
    (hlast : ∀ b r, B.leaves (last b) r = r.toBool) (hquit : ∀ r, B.leaves quit r = true) :
    ((p >>= fun b => Prog.perform (last b)).cleaningUp (Prog.perform quit)).EndsBlock B := by
  have leaving : ∀ e : ε, ((Prog.perform quit : Prog F ε Unit) >>= fun _ =>
      (raise e : Prog F ε α)).EndsBlock B := by
    intro e r
    refine .inl ⟨hquit r, ?_⟩
    cases r with
    | ok u => exact ⟨_, rfl⟩
    | error e' => exact ⟨_, rfl⟩
  change ((p.bind fun b => Prog.perform (last b)).tryCatch _).EndsBlock B
  induction p with
  | ret r =>
    cases r with
    | ok b =>
      intro r
      cases r with
      | ok a => exact .inl ⟨hlast b _, _, rfl⟩
      | error e => exact .inr ⟨hlast b _, leaving e⟩
    | error e => exact leaving e
  | call c k ih => exact fun r => .inr ⟨hp.1 r, ih r (hp.2 r)⟩

/-! ### Programs turn by turn -/

/-- Every turn of the program stays within the relation. -/
inductive Turns (B : Brackets F ε) (sem : (β : Type) → F β → EStateM ε σ β) (R : σ → σ → Prop) :
    {α : Type} → Prog F ε α → Prop
  | ret {α : Type} (r : Except ε α) : Turns B sem R (ret r)
  | andThen {α β : Type} {p : Prog F ε α} {k : Except ε α → Prog F ε β} (atomic : p.Atomic B sem)
      (within : Within R (p.run sem)) (rest : ∀ r, Turns B sem R (k r)) :
        Turns B sem R (p.andThen k)

namespace Turns

variable {R : σ → σ → Prop}

/-- What one turn does. -/
theorem turn [Closed R] {p : Prog F ε α} (h : p.Turns B sem R) (s : σ) :
    R s (p.turn B sem s).2 ∧ (p.turn B sem s).1.Turns B sem R := by
  cases h with
  | ret r => exact ⟨Closed.refl s, .ret r⟩
  | andThen atomic within rest =>
    rw [atomic, resultOf_snd]
    exact ⟨within s, rest _⟩

theorem atomic {p : Prog F ε α} (atomic : p.Atomic B sem) (within : Within R (p.run sem)) :
    p.Turns B sem R := by
  rw [← andThen_ret p]
  exact .andThen atomic within .ret

theorem trans {p : Prog F ε α} {k : Except ε α → Prog F ε β} (hp : p.Turns B sem R)
    (hk : ∀ r, (k r).Turns B sem R) : (p.andThen k).Turns B sem R := by
  induction hp with
  | ret r => exact hk r
  | andThen atomic within rest ih =>
    rw [andThen_assoc]
    exact .andThen atomic within fun r => ih r hk

theorem bind {p : Prog F ε α} {f : α → Prog F ε β} (hp : p.Turns B sem R)
    (hf : ∀ a, (f a).Turns B sem R) : (p >>= f).Turns B sem R := by
  rw [bind_eq_andThen]
  refine hp.trans fun r => ?_
  cases r with
  | ok a => exact hf a
  | error e => exact .ret _

theorem tryCatch {p : Prog F ε α} {handler : ε → Prog F ε α} (hp : p.Turns B sem R)
    (hh : ∀ e, (handler e).Turns B sem R) : (p.tryCatch handler).Turns B sem R := by
  rw [tryCatch_eq_andThen]
  refine hp.trans fun r => ?_
  cases r with
  | ok a => exact .ret _
  | error e => exact hh e

theorem cleaningUp {p : Prog F ε α} {cleanup : Prog F ε Unit} (hp : p.Turns B sem R)
    (hc : cleanup.Turns B sem R) : (p.cleaningUp cleanup).Turns B sem R :=
  hp.tryCatch fun _ => hc.bind fun _ => .ret _

end Turns

end Prog

/-! ### Threads -/

section Threads

variable {ι : Type} [DecidableEq ι] (B : Brackets F ε) (sem : (β : Type) → F β → EStateM ε σ β)

/-- Thread `i` takes a turn. -/
def takeTurn (i : ι) (c : Machine.Config F ε σ ι α) : Machine.Config F ε σ ι α :=
  let out := (c.2 i).turn B sem c.1
  (out.2, Function.update c.2 i out.1)

/-- The threads take turns in the order of the schedule. -/
def takeTurns (schedule : List ι) (c : Machine.Config F ε σ ι α) : Machine.Config F ε σ ι α :=
  schedule.foldl (fun c i => takeTurn B sem i c) c

variable {B sem}

/-- What every turn preserves holds after any schedule. -/
theorem takeTurns_induction {I : Machine.Config F ε σ ι α → Prop} {schedule : List ι}
    {c : Machine.Config F ε σ ι α} (start : I c) (step : ∀ i c, I c → I (takeTurn B sem i c)) :
    I (takeTurns B sem schedule c) := by
  induction schedule generalizing c with
  | nil => exact start
  | cons i rest ih => exact ih (step i c start)

end Threads

end AssetStore.Lib
