import Mathlib.Logic.Function.Basic
import Mathlib.Logic.Relation
import AssetStore.Lib.Fallible

/-! Concurrent programs. A program is a tree of commands; a machine executes the commands of many
programs on one state, one command at a time and in any order. A command may be blocked, an
exception may be raised before or after it, and a thread may crash between two commands. -/

namespace AssetStore.Lib

universe u

/-- A program: a command continues with what it returned or raised. -/
inductive Prog (F : Type → Type u) (ε α : Type) : Type (max 1 u)
  | ret (r : Except ε α)
  | call {β : Type} (c : F β) (k : Except ε β → Prog F ε α)

namespace Prog

variable {F : Type → Type u} {ε σ α β : Type}

def bind : Prog F ε α → (α → Prog F ε β) → Prog F ε β
  | ret (.ok a), f => f a
  | ret (.error e), _ => ret (.error e)
  | call c k, f => call c fun r => (k r).bind f

instance : Monad (Prog F ε) where
  pure a := ret (.ok a)
  bind := bind

/-- Continues with `handler` when the program raises. -/
def tryCatch : Prog F ε α → (ε → Prog F ε α) → Prog F ε α
  | ret (.ok a), _ => ret (.ok a)
  | ret (.error e), handler => handler e
  | call c k, handler => call c fun r => (k r).tryCatch handler

def perform (c : F α) : Prog F ε α := call c ret

def raise (e : ε) : Prog F ε α := ret (.error e)

/-- Runs `cleanup` when the program raises, and raises again. -/
def cleaningUp (p : Prog F ε α) (cleanup : Prog F ε Unit) : Prog F ε α :=
  p.tryCatch fun e => do
    cleanup
    raise e

/-- The program, run alone. -/
def run (sem : (β : Type) → F β → EStateM ε σ β) : Prog F ε α → EStateM ε σ α
  | ret r => attempt r
  | call c k => fun s =>
    match sem _ c s with
    | .ok b s' => (k (.ok b)).run sem s'
    | .error e s' => (k (.error e)).run sem s'

section Run

variable {sem : (β : Type) → F β → EStateM ε σ β}

@[simp] theorem run_ret {r : Except ε α} : (ret r : Prog F ε α).run sem = attempt r := rfl

@[simp] theorem run_pure {a : α} : (pure a : Prog F ε α).run sem = pure a := rfl

@[simp] theorem run_raise {e : ε} : (raise e : Prog F ε α).run sem = attempt (.error e) := rfl

@[simp] theorem run_perform {c : F α} : (perform c : Prog F ε α).run sem = sem α c := by
  funext s
  simp only [perform, run]
  cases sem _ c s <;> rfl

@[simp] theorem run_bind {p : Prog F ε α} {f : α → Prog F ε β} :
    (p >>= f).run sem = p.run sem >>= fun a => (f a).run sem := by
  change (p.bind f).run sem = _
  induction p with
  | ret r =>
    cases r with
    | ok a => rfl
    | error e => rfl
  | call c k ih =>
    funext s
    change (call c fun r => (k r).bind f).run sem s = EStateM.bind ((call c k).run sem) _ s
    simp only [EStateM.bind, run]
    cases sem _ c s with
    | ok b s' => exact congrFun (ih (.ok b)) s'
    | error e s' => exact congrFun (ih (.error e)) s'

theorem run_tryCatch {p : Prog F ε α} {handler : ε → Prog F ε α} {s : σ} :
    (p.tryCatch handler).run sem s =
      match p.run sem s with
      | .ok a s' => .ok a s'
      | .error e s' => (handler e).run sem s' := by
  induction p generalizing s with
  | ret r =>
    cases r with
    | ok a => rfl
    | error e => rfl
  | call c k ih =>
    simp only [tryCatch, run]
    cases sem _ c s with
    | ok b s' => exact ih (.ok b)
    | error e s' => exact ih (.error e)

@[simp] theorem run_cleaningUp_eq_ok {p : Prog F ε α} {cleanup : Prog F ε Unit} {s s' : σ} {a : α} :
    (p.cleaningUp cleanup).run sem s = .ok a s' ↔ p.run sem s = .ok a s' := by
  unfold cleaningUp
  rw [run_tryCatch]
  cases p.run sem s with
  | ok b s1 => rfl
  | error e s1 => simp

/-- A cleanup that leaves the state adds nothing to what the program did. -/
theorem final_run_cleaningUp {p : Prog F ε α} {cleanup : Prog F ε Unit}
    (h : ∀ s, final (cleanup.run sem s) = s) (s : σ) :
    final ((p.cleaningUp cleanup).run sem s) = final (p.run sem s) := by
  unfold cleaningUp
  rw [run_tryCatch]
  cases p.run sem s with
  | ok b s1 => rfl
  | error e s1 =>
    simp only [run_bind, run_raise, final_error]
    refine final_bind (P := fun s' => s' = s1) (fun _ s' hraised => ?_) fun _ s' hreturned => ?_
    · rw [← h s1, hraised, final_error]
    · rw [final_attempt, ← h s1, hreturned, final_ok]

end Run

/-- Whether the program has returned a value. -/
def hasReturned : Prog F ε α → Bool
  | ret (.ok _) => true
  | _ => false

theorem hasReturned_eq {p : Prog F ε α} (h : p.hasReturned = true) : ∃ a, p = ret (.ok a) := by
  cases p with
  | ret r =>
    cases r with
    | ok a => exact ⟨a, rfl⟩
    | error e => cases h
  | call c k => cases h

/-- Every command of the program meets `P`, and every value that it returns meets `Q`. -/
def All (P : (β : Type) → F β → Prop) (Q : α → Prop) : Prog F ε α → Prop
  | ret r => ∀ a, r = .ok a → Q a
  | call c k => P _ c ∧ ∀ r, (k r).All P Q

namespace All

variable {P : (β : Type) → F β → Prop} {Q : α → Prop} {Q' : β → Prop}

theorem pure {a : α} (h : Q a) : (pure a : Prog F ε α).All P Q := fun _ e => by
  cases e
  exact h

theorem ret {r : Except ε α} : (ret r : Prog F ε α).All P fun _ => True := fun _ _ => trivial

theorem perform {c : F α} (h : P α c) : (perform c : Prog F ε α).All P fun _ => True :=
  ⟨h, fun _ => ret⟩

theorem bind {p : Prog F ε α} {f : α → Prog F ε β} (hp : p.All P Q)
    (hf : ∀ a, Q a → (f a).All P Q') : (p >>= f).All P Q' := by
  change (p.bind f).All P Q'
  induction p with
  | ret r =>
    cases r with
    | ok a => exact hf a (hp a rfl)
    | error e => exact fun _ he => by cases he
  | call c k ih => exact ⟨hp.1, fun r => ih r (hp.2 r)⟩

theorem tryCatch {p : Prog F ε α} {handler : ε → Prog F ε α} (hp : p.All P Q)
    (hh : ∀ e, (handler e).All P Q) : (p.tryCatch handler).All P Q := by
  induction p with
  | ret r =>
    cases r with
    | ok a => exact hp
    | error e => exact hh e
  | call c k ih => exact ⟨hp.1, fun r => ih r (hp.2 r)⟩

theorem cleaningUp {p : Prog F ε α} {cleanup : Prog F ε Unit} (hp : p.All P Q)
    (hc : cleanup.All P fun _ => True) : (p.cleaningUp cleanup).All P Q :=
  hp.tryCatch fun _ => hc.bind fun _ _ _ he => by cases he

theorem mono {P' : (β : Type) → F β → Prop} {p : Prog F ε α} (hp : p.All P Q)
    (h : ∀ β c, P β c → P' β c) : p.All P' Q := by
  induction p with
  | ret r => exact hp
  | call c k ih => exact ⟨h _ c hp.1, fun r => ih r (hp.2 r)⟩

theorem conseq {R : α → Prop} {p : Prog F ε α} (hp : p.All P Q) (h : ∀ a, Q a → R a) :
    p.All P R := by
  induction p with
  | ret r => exact fun a ha => h a (hp a ha)
  | call c k ih => exact ⟨hp.1, fun r => ih r (hp.2 r)⟩

/-- Alone, a program of commands that stay within a relation stays within it. -/
theorem run_within {R : σ → σ → Prop} [Closed R] {sem : (β : Type) → F β → EStateM ε σ β}
    {p : Prog F ε α} (h : p.All (fun β c => Within R (sem β c)) Q) : Within R (p.run sem) := by
  intro s
  induction p generalizing s with
  | ret r =>
    rw [run_ret, final_attempt]
    exact Closed.refl s
  | call c k ih =>
    simp only [run]
    have hc := h.1 s
    cases hs : sem _ c s with
    | ok b s' =>
      rw [hs] at hc
      exact Closed.trans hc (ih _ (h.2 _) s')
    | error e s' =>
      rw [hs] at hc
      exact Closed.trans hc (ih _ (h.2 _) s')

theorem ite {c : Prop} [Decidable c] {p q : Prog F ε α} (hp : p.All P Q) (hq : q.All P Q) :
    (if c then p else q).All P Q := by
  split
  · exact hp
  · exact hq

end All

/-- While the commands raise only errors of `A`, so does the program. -/
def OnlyRaises (A : ε → Prop) : Prog F ε α → Prop
  | ret r => ∀ e, r = .error e → A e
  | call _ k => ∀ r, (∀ e, r = .error e → A e) → (k r).OnlyRaises A

namespace OnlyRaises

variable {A : ε → Prop}

theorem pure {a : α} : (pure a : Prog F ε α).OnlyRaises A := fun _ h => by
  cases h

theorem ret {r : Except ε α} (h : ∀ e, r = .error e → A e) : (ret r : Prog F ε α).OnlyRaises A := h

theorem raise {e : ε} (h : A e) : (raise e : Prog F ε α).OnlyRaises A := fun e' heq => by
  cases heq
  exact h

theorem perform {c : F α} : (perform c : Prog F ε α).OnlyRaises A := fun _ h => h

theorem bind {p : Prog F ε α} {f : α → Prog F ε β} (hp : p.OnlyRaises A)
    (hf : ∀ a, (f a).OnlyRaises A) :
    (p >>= f).OnlyRaises A := by
  change (p.bind f).OnlyRaises A
  induction p with
  | ret r =>
    cases r with
    | ok a => exact hf a
    | error e => exact raise (hp e rfl)
  | call c k ih => exact fun r hr => ih r (hp r hr)

theorem tryCatch {p : Prog F ε α} {handler : ε → Prog F ε α} (hp : p.OnlyRaises A)
    (hh : ∀ e, A e → (handler e).OnlyRaises A) : (p.tryCatch handler).OnlyRaises A := by
  induction p with
  | ret r =>
    cases r with
    | ok a => exact pure
    | error e => exact hh e (hp e rfl)
  | call c k ih => exact fun r hr => ih r (hp r hr)

theorem ite {c : Prop} [Decidable c] {p q : Prog F ε α} (hp : p.OnlyRaises A)
    (hq : q.OnlyRaises A) :
    (if c then p else q).OnlyRaises A := by
  split
  · exact hp
  · exact hq

end OnlyRaises

/-- No way to a normal return avoids a command of `P` that returns. -/
def Passes (P : (β : Type) → F β → Prop) : Prog F ε α → Prop
  | ret r => ∃ e, r = .error e
  | call c k => ∀ r, (P _ c ∧ ∃ b, r = .ok b) ∨ (k r).Passes P

namespace Passes

variable {P : (β : Type) → F β → Prop}

theorem perform {c : F α} (h : P α c) : (perform c : Prog F ε α).Passes P := fun r => by
  cases r with
  | ok b => exact .inl ⟨h, b, rfl⟩
  | error e => exact .inr ⟨e, rfl⟩

theorem bind_left {p : Prog F ε α} {f : α → Prog F ε β} (hp : p.Passes P) : (p >>= f).Passes P := by
  change (p.bind f).Passes P
  induction p with
  | ret r =>
    obtain ⟨e, rfl⟩ := hp
    exact ⟨e, rfl⟩
  | call c k ih => exact fun r => (hp r).imp (fun h => h) (ih r)

theorem bind_right {p : Prog F ε α} {f : α → Prog F ε β} (hf : ∀ a, (f a).Passes P) :
    (p >>= f).Passes P := by
  change (p.bind f).Passes P
  induction p with
  | ret r =>
    cases r with
    | ok a => exact hf a
    | error e => exact ⟨e, rfl⟩
  | call c k ih => exact fun r => .inr (ih r)

theorem not_hasReturned {p : Prog F ε α} (h : p.Passes P) : p.hasReturned = false := by
  cases p with
  | ret r =>
    obtain ⟨e, rfl⟩ := h
    rfl
  | call c k => rfl

end Passes

end Prog

/-- A machine: what a command of a thread does, unless it is blocked, and what remains of the state
when a thread is gone. -/
structure Machine (F : Type → Type u) (ε σ ι : Type) where
  exec : {β : Type} → ι → F β → σ → Option (Except ε β × σ)
  leave : ι → σ → σ

namespace Machine

variable {F : Type → Type u} {ε σ ι α : Type} [DecidableEq ι] {M : Machine F ε σ ι}

/-- The state and what each thread still has to do. -/
abbrev Config (F : Type → Type u) (ε σ ι α : Type) := σ × (ι → Prog F ε α)

/-- One step of the machine, where the commands that are executed meet `ok`. -/
inductive Step (M : Machine F ε σ ι) (ok : {β : Type} → ι → F β → σ → Prop) :
    Config F ε σ ι α → Config F ε σ ι α → Prop
  | exec {s s' : σ} {T : ι → Prog F ε α} (i : ι) {β : Type} {c : F β} {k : Except ε β → Prog F ε α}
      {r : Except ε β} (next : T i = .call c k) (meets : ok i c s)
      (done : M.exec i c s = some (r, s')) :
      Step M ok (s, T) (s', Function.update T i (k r))
  | raise {s : σ} {T : ι → Prog F ε α} (i : ι) {β : Type} {c : F β} {k : Except ε β → Prog F ε α}
      (e : ε) (next : T i = .call c k) : Step M ok (s, T) (s, Function.update T i (k (.error e)))
  | interrupt {s s' : σ} {T : ι → Prog F ε α} (i : ι) {β : Type} {c : F β}
      {k : Except ε β → Prog F ε α} {r : Except ε β} (e : ε) (next : T i = .call c k)
      (meets : ok i c s) (done : M.exec i c s = some (r, s')) :
      Step M ok (s, T) (s', Function.update T i (k (.error e)))
  | crash {s : σ} {T : ι → Prog F ε α} (i : ι) (e : ε) :
      Step M ok (s, T) (M.leave i s, Function.update T i (.ret (.error e)))

/-- The configurations that a run reaches. -/
def Runs (M : Machine F ε σ ι) (ok : {β : Type} → ι → F β → σ → Prop) :
    Config F ε σ ι α → Config F ε σ ι α → Prop :=
  Relation.ReflTransGen (Step M ok)

theorem Runs.mono {ok ok' : {β : Type} → ι → F β → σ → Prop} {c c' : Config F ε σ ι α}
    (h : M.Runs ok c c') (weaker : ∀ {β : Type} i (cmd : F β) s, ok i cmd s → ok' i cmd s) :
    M.Runs ok' c c' := by
  refine Relation.ReflTransGen.mono (fun c c' hstep => ?_) _ _ h
  cases hstep with
  | exec i next meets done => exact .exec i next (weaker _ _ _ meets) done
  | raise i e next => exact .raise i e next
  | interrupt i e next meets done => exact .interrupt i e next (weaker _ _ _ meets) done
  | crash i e => exact .crash i e

/-- Thread `i` executes its next command; an exception may break in after it. -/
def Acts (M : Machine F ε σ ι) (ok : {β : Type} → ι → F β → σ → Prop) (i : ι)
    (c c' : Config F ε σ ι α) : Prop :=
  ∃ (β : Type) (cmd : F β) (k : Except ε β → Prog F ε α) (r r' : Except ε β),
    c.2 i = .call cmd k ∧ ok i cmd c.1 ∧ M.exec i cmd c.1 = some (r, c'.1) ∧
      c'.2 = Function.update c.2 i (k r')

/-- A step executes a command, or it leaves the state to the other threads. -/
theorem Step.acts {ok : {β : Type} → ι → F β → σ → Prop} {c c' : Config F ε σ ι α}
    (h : M.Step ok c c') : (∃ i, M.Acts ok i c c') ∨ c'.1 = c.1 ∨ ∃ i, c'.1 = M.leave i c.1 := by
  cases h with
  | exec i next meets done => exact .inl ⟨i, _, _, _, _, _, next, meets, done, rfl⟩
  | raise i e next => exact .inr (.inl rfl)
  | interrupt i e next meets done => exact .inl ⟨i, _, _, _, _, _, next, meets, done, rfl⟩
  | crash i e => exact .inr (.inr ⟨i, rfl⟩)

/-- Programs of commands of `P` stay such programs. -/
theorem Step.all {ok : {β : Type} → ι → F β → σ → Prop} {P : ι → (β : Type) → F β → Prop}
    {c c' : Config F ε σ ι α} (h : M.Step ok c c')
    (hP : ∀ i, (c.2 i).All (P i) fun _ => True) (i : ι) :
    (c'.2 i).All (P i) fun _ => True := by
  have put : ∀ {T : ι → Prog F ε α} {j : ι} {p : Prog F ε α}, (∀ i, (T i).All (P i) fun _ => True) →
      p.All (P j) (fun _ => True) → (Function.update T j p i).All (P i) fun _ => True := by
    intro T j p hT hp
    by_cases hij : i = j
    · subst hij
      rwa [Function.update_self]
    · rw [Function.update_of_ne hij]
      exact hT i
  have rest : ∀ {T : ι → Prog F ε α} {j : ι} {β : Type} {cmd : F β} {k : Except ε β → Prog F ε α},
      (∀ i, (T i).All (P i) fun _ => True) → T j = .call cmd k →
        ∀ r, (k r).All (P j) fun _ => True := by
    intro T j β cmd k hT next r
    have hcall := hT j
    rw [next] at hcall
    exact hcall.2 r
  cases h with
  | exec j next meets done => exact put hP (rest hP next _)
  | raise j e next => exact put hP (rest hP next _)
  | interrupt j e next meets done => exact put hP (rest hP next _)
  | crash j e => exact put hP .ret

/-- The configurations of a run, one after the other. -/
structure Trace (M : Machine F ε σ ι) (ok : {β : Type} → ι → F β → σ → Prop)
    (start : Config F ε σ ι α)
    (len : Nat) (τ : Nat → Config F ε σ ι α) : Prop where
  start : τ 0 = start
  step : ∀ n < len, M.Step ok (τ n) (τ (n + 1))

/-- Every run has a trace. -/
theorem Runs.exists_trace {ok : {β : Type} → ι → F β → σ → Prop} {start c : Config F ε σ ι α}
    (h : M.Runs ok start c) : ∃ len τ, M.Trace ok start len τ ∧ τ len = c := by
  induction h with
  | refl => exact ⟨0, fun _ => start, ⟨rfl, fun _ h => (Nat.not_lt_zero _ h).elim⟩, rfl⟩
  | @tail c c' _ hstep ih =>
    obtain ⟨len, τ, htrace, rfl⟩ := ih
    refine ⟨len + 1, fun n => if n ≤ len then τ n else c', ⟨?_, fun n hn => ?_⟩, ?_⟩
    · simpa using htrace.start
    · rcases Nat.lt_succ_iff_lt_or_eq.mp hn with hlt | rfl
      · have hstep : M.Step ok (τ n) (τ (n + 1)) := htrace.step n hlt
        rwa [if_pos (Nat.le_of_lt hlt), if_pos (Nat.succ_le_of_lt hlt)]
      · rwa [if_pos (Nat.le_refl n), if_neg (Nat.not_succ_le_self n)]
    · exact if_neg (Nat.not_succ_le_self len)

theorem Trace.all {ok : {β : Type} → ι → F β → σ → Prop} {P : ι → (β : Type) → F β → Prop}
    {start : Config F ε σ ι α} {len : Nat} {τ : Nat → Config F ε σ ι α} (h : M.Trace ok start len τ)
    (hP : ∀ i, (start.2 i).All (P i) fun _ => True) {n : Nat} (hn : n ≤ len) (i : ι) :
    ((τ n).2 i).All (P i) fun _ => True := by
  induction n generalizing i with
  | zero =>
    rw [h.start]
    exact hP i
  | succ n ih => exact (h.step n hn).all (ih (Nat.le_of_succ_le hn)) i

/-- Executes the next command of each thread in the order of the schedule. -/
def play (M : Machine F ε σ ι) (ok : {β : Type} → ι → F β → σ → Bool) :
    List ι → Config F ε σ ι α → Option (Config F ε σ ι α)
  | [], c => some c
  | i :: rest, (s, T) =>
    match T i with
    | .ret _ => none
    | .call c k =>
      if ok i c s then
        match M.exec i c s with
        | none => none
        | some (r, s') => M.play ok rest (s', Function.update T i (k r))
      else none

/-- The first entry of a schedule executes the next command of its thread. -/
theorem play_cons {ok : {β : Type} → ι → F β → σ → Bool} {i : ι} {rest : List ι} {s : σ}
    {T : ι → Prog F ε α} {c' : Config F ε σ ι α} (h : M.play ok (i :: rest) (s, T) = some c') :
    ∃ (β : Type) (cmd : F β) (k : Except ε β → Prog F ε α) (r : Except ε β) (s' : σ),
      T i = .call cmd k ∧ ok i cmd s = true ∧ M.exec i cmd s = some (r, s') ∧
        M.play ok rest (s', Function.update T i (k r)) = some c' := by
  cases hT : T i with
  | ret r => simp [play, hT] at h
  | call cmd k =>
    simp only [play, hT] at h
    split at h
    · cases hx : M.exec i cmd s with
      | none => simp [hx] at h
      | some out =>
        obtain ⟨r, s'⟩ := out
        simp only [hx] at h
        exact ⟨_, cmd, k, r, s', rfl, ‹_›, hx, h⟩
    · cases h

theorem runs_of_play {ok : {β : Type} → ι → F β → σ → Bool} {schedule : List ι}
    {c c' : Config F ε σ ι α} (h : M.play ok schedule c = some c') :
    M.Runs (fun i cmd s => ok i cmd s = true) c c' := by
  induction schedule generalizing c with
  | nil =>
    obtain rfl := Option.some.inj h
    exact .refl
  | cons i rest ih =>
    obtain ⟨s, T⟩ := c
    obtain ⟨β, cmd, k, r, s', next, meets, done, hrest⟩ := play_cons h
    exact .head (.exec i next meets done) (ih hrest)

theorem exists_runs_of_play {ok : {β : Type} → ι → F β → σ → Bool} {schedule : List ι}
    {c : Config F ε σ ι α} {P : Config F ε σ ι α → Bool}
    (h : (M.play ok schedule c).any P = true) :
    ∃ s T, M.Runs (fun i cmd s => ok i cmd s = true) c (s, T) ∧ P (s, T) = true := by
  obtain ⟨⟨s, T⟩, hplay, hP⟩ := (Option.any_eq_true _ _).mp h
  exact ⟨s, T, runs_of_play hplay, hP⟩

theorem play_append {ok : {β : Type} → ι → F β → σ → Bool} {first second : List ι}
    {c : Config F ε σ ι α} :
    M.play ok (first ++ second) c = (M.play ok first c).bind (M.play ok second) := by
  induction first generalizing c with
  | nil => rfl
  | cons i rest ih =>
    obtain ⟨s, T⟩ := c
    cases hT : T i with
    | ret r => simp [play, hT]
    | call cmd k =>
      simp only [List.cons_append, play, hT]
      split
      · cases hx : M.exec i cmd s with
        | none => rfl
        | some out => exact ih
      · rfl

/-- What the schedule has done before its n-th entry. -/
def playTrace (M : Machine F ε σ ι) (ok : {β : Type} → ι → F β → σ → Bool) (schedule : List ι)
    (c : Config F ε σ ι α) (n : Nat) : Config F ε σ ι α :=
  (M.play ok (schedule.take n) c).getD c

theorem playTrace_step {ok : {β : Type} → ι → F β → σ → Bool} {schedule : List ι}
    {c : Config F ε σ ι α} (h : (M.play ok schedule c).isSome) {n : Nat}
    (hn : n < schedule.length) :
    M.play ok [schedule.get ⟨n, hn⟩] (M.playTrace ok schedule c n) =
      some (M.playTrace ok schedule c (n + 1)) := by
  have prefixes : ∀ m, (M.play ok (schedule.take m) c).isSome := by
    intro m
    rw [← List.take_append_drop m schedule, play_append] at h
    exact Option.isSome_of_isSome_bind h
  obtain ⟨c1, hc1⟩ := Option.isSome_iff_exists.mp (prefixes n)
  obtain ⟨c2, hc2⟩ := Option.isSome_iff_exists.mp (prefixes (n + 1))
  have hnext := hc2
  rw [← List.take_concat_get hn, List.concat_eq_append, play_append, hc1] at hnext
  simp only [playTrace, hc1, hc2, Option.getD_some]
  exact hnext

theorem acts_of_play {ok : {β : Type} → ι → F β → σ → Bool} {i : ι} {c c' : Config F ε σ ι α}
    (h : M.play ok [i] c = some c') :
    M.Step (fun i cmd s => ok i cmd s = true) c c' ∧
      M.Acts (fun i cmd s => ok i cmd s = true) i c c' := by
  obtain ⟨s, T⟩ := c
  obtain ⟨β, cmd, k, r, s', next, meets, done, hrest⟩ := play_cons h
  obtain rfl := Option.some.inj hrest
  exact ⟨.exec i next meets done, _, cmd, k, r, r, next, meets, done, rfl⟩

/-- The configurations of a schedule that is not blocked are those of a run. -/
theorem playTrace_trace {ok : {β : Type} → ι → F β → σ → Bool} {schedule : List ι}
    {c : Config F ε σ ι α} (h : (M.play ok schedule c).isSome) :
    M.Trace (fun i cmd s => ok i cmd s = true) c schedule.length (M.playTrace ok schedule c) where
  start := rfl
  step _ hn := (acts_of_play (playTrace_step h hn)).1

end Machine

end AssetStore.Lib
