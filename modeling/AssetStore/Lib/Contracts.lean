import AssetStore.Lib.Threads

/-! Contracts between a machine and its threads. A contract says in which states a thread may
perform a command, and what it can rely on when the command has returned. Between two commands of a
thread the state moves on, but only to later states. When every thread honours the contract and
every allowed command keeps to it, then so does every run. -/

namespace AssetStore.Lib

universe u v

/-- The commands that a program may perform, and what it is promised when they return. -/
structure Contract (F : Type → Type u) (σ : Type) where
  inv : σ → Prop
  later : σ → σ → Prop
  allows : {β : Type} → F β → σ → Prop
  promises : {β : Type} → F β → β → σ → Prop
  refl : ∀ s, later s s
  trans : ∀ {s s' s''}, later s s' → later s' s'' → later s s''

variable {F : Type → Type u} {G : Type → Type v} {ε σ ι α β : Type}

/-- What holds of a state holds of the later ones. -/
def Contract.Lasts (C : Contract F σ) (P : σ → Prop) : Prop := ∀ s s', C.later s s' → P s → P s'

/-- The contract, for commands that stand for others. -/
def Contract.along (C : Contract G σ) (f : {β : Type} → F β → G β) : Contract F σ where
  inv := C.inv
  later := C.later
  allows c := C.allows (f c)
  promises c := C.promises (f c)
  refl := C.refl
  trans := C.trans

namespace Prog

/-- The program with each command replaced. -/
def hoist (f : {β : Type} → F β → G β) : Prog F ε α → Prog G ε α
  | ret r => ret r
  | call c k => call (f c) fun r => (k r).hoist f

/-- Started in the state, the program performs only allowed commands as long as it gets what was
promised, and a value that it returns meets `Q`. -/
def Honours (C : Contract F σ) (Q : α → σ → Prop) : Prog F ε α → σ → Prop
  | ret r, s => ∀ a, r = .ok a → Q a s
  | call c k, s => ∀ s1, C.later s s1 → C.inv s1 → C.allows c s1 ∧
      ∀ r s2, C.later s1 s2 → C.inv s2 → (∀ b, r = .ok b → C.promises c b s2) → (k r).Honours C Q s2

namespace Honours

variable {C : Contract F σ} {Q : α → σ → Prop} {Q' : β → σ → Prop} {s s' : σ}

theorem pure {a : α} (h : Q a s) : (pure a : Prog F ε α).Honours C Q s := fun _ e => by
  cases e
  exact h

/-- A check returns what it computes. -/
theorem ret {r : Except ε α} : (ret r : Prog F ε α).Honours C (fun a _ => r = .ok a) s :=
  fun _ h => h

theorem perform {c : F α} (h : ∀ s1, C.later s s1 → C.inv s1 → C.allows c s1) :
    (perform c : Prog F ε α).Honours C (C.promises c) s :=
  fun s1 hlater hinv => ⟨h s1 hlater hinv, fun _ _ _ _ told a ha => told a ha⟩

theorem conseq {R : α → σ → Prop} {p : Prog F ε α} (hp : p.Honours C Q s)
    (h : ∀ a s', C.later s s' → Q a s' → R a s') : p.Honours C R s := by
  induction p generalizing s with
  | ret r => exact fun a ha => h a s (C.refl s) (hp a ha)
  | call c k ih =>
    intro s1 h1 hinv
    refine ⟨(hp s1 h1 hinv).1, fun r s2 h2 hinv2 told => ?_⟩
    refine ih r ((hp s1 h1 hinv).2 r s2 h2 hinv2 told) fun a s' h' => h a s' ?_
    exact C.trans h1 (C.trans h2 h')

theorem bind {p : Prog F ε α} {f : α → Prog F ε β} (hp : p.Honours C Q s)
    (hf : ∀ a s', C.later s s' → Q a s' → (f a).Honours C Q' s') : (p >>= f).Honours C Q' s := by
  change (p.bind f).Honours C Q' s
  induction p generalizing s with
  | ret r =>
    cases r with
    | ok a => exact hf a s (C.refl s) (hp a rfl)
    | error e => exact fun _ he => by cases he
  | call c k ih =>
    intro s1 h1 hinv
    refine ⟨(hp s1 h1 hinv).1, fun r s2 h2 hinv2 told => ?_⟩
    refine ih r ((hp s1 h1 hinv).2 r s2 h2 hinv2 told) fun a s' h' => hf a s' ?_
    exact C.trans h1 (C.trans h2 h')

theorem tryCatch {p : Prog F ε α} {handler : ε → Prog F ε α} (hp : p.Honours C Q s)
    (hh : ∀ e s', C.later s s' → (handler e).Honours C Q s') :
    (p.tryCatch handler).Honours C Q s := by
  induction p generalizing s with
  | ret r =>
    cases r with
    | ok a => exact hp
    | error e => exact hh e s (C.refl s)
  | call c k ih =>
    intro s1 h1 hinv
    refine ⟨(hp s1 h1 hinv).1, fun r s2 h2 hinv2 told => ?_⟩
    refine ih r ((hp s1 h1 hinv).2 r s2 h2 hinv2 told) fun e s' h' => hh e s' ?_
    exact C.trans h1 (C.trans h2 h')

theorem cleaningUp {p : Prog F ε α} {cleanup : Prog F ε Unit} {U : Unit → σ → Prop}
    (hp : p.Honours C Q s)
    (hc : ∀ s', C.later s s' → cleanup.Honours C U s') : (p.cleaningUp cleanup).Honours C Q s :=
  hp.tryCatch fun _ s' h' => (hc s' h').bind fun _ _ _ _ _ he => by cases he

theorem ite {c : Prop} [Decidable c] {p q : Prog F ε α} (hp : c → p.Honours C Q s)
    (hq : ¬c → q.Honours C Q s) : (if c then p else q).Honours C Q s := by
  split
  · exact hp ‹_›
  · exact hq ‹_›

/-- A program may be started later when what it returns lasts. -/
theorem later {p : Prog F ε α} (lasts : ∀ a, C.Lasts (Q a)) (hp : p.Honours C Q s)
    (h : C.later s s') :
    p.Honours C Q s' := by
  cases p with
  | ret r => exact fun a ha => lasts a s s' h (hp a ha)
  | call c k => exact fun s1 h1 => hp s1 (C.trans h h1)

/-- A program over other commands, under the contract for these. -/
theorem hoist {C : Contract G σ} {f : {β : Type} → F β → G β} {p : Prog F ε α}
    (hp : p.Honours (C.along f) Q s) : (p.hoist f).Honours C Q s := by
  induction p generalizing s with
  | ret r => exact hp
  | call c k ih =>
    intro s1 h1 hinv
    exact ⟨(hp s1 h1 hinv).1, fun r s2 h2 hinv2 told => ih r ((hp s1 h1 hinv).2 r s2 h2 hinv2 told)⟩

end Honours

end Prog

namespace Machine

variable {M : Machine F ε σ ι} {ok : {β : Type} → ι → F β → σ → Prop} {seen : σ → Prop}
  {C : Contract F σ}

/-- Every allowed command that leads to one of the states keeps to the contract. -/
structure Upholds (M : Machine F ε σ ι) (ok : {β : Type} → ι → F β → σ → Prop) (seen : σ → Prop)
    (C : Contract F σ) : Prop where
  exec : ∀ {i : ι} {β : Type} {c : F β} {s s' : σ} {r : Except ε β}, C.inv s → ok i c s →
    C.allows c s →
    M.exec i c s = some (r, s') → seen s' → C.inv s' ∧ C.later s s' ∧ ∀ b, r = .ok b →
      C.promises c b s'
  leave : ∀ i s, C.inv s → seen (M.leave i s) → C.inv (M.leave i s) ∧ C.later s (M.leave i s)

variable [DecidableEq ι] {Q : ι → α → σ → Prop} {s s' : σ} {T T' : ι → Prog F ε α}

/-- The invariant holds, and the rest of each thread honours the contract. -/
structure Upheld (C : Contract F σ) (Q : ι → α → σ → Prop) (s : σ) (T : ι → Prog F ε α) : Prop where
  inv : C.inv s
  honours : ∀ i, (T i).Honours C (Q i) s

theorem Upheld.update (h : Upheld C Q s T) (lasts : ∀ i a, C.Lasts (Q i a)) (hinv : C.inv s')
    (hlater : C.later s s') {i : ι} {p : Prog F ε α} (hp : p.Honours C (Q i) s') :
    Upheld C Q s' (Function.update T i p) where
  inv := hinv
  honours j := by
    by_cases hji : j = i
    · subst hji
      rwa [Function.update_self]
    · rw [Function.update_of_ne hji]
      exact (h.honours j).later (lasts j) hlater

/-- One step. A thread may be told of an exception at any time. -/
theorem Upheld.step (h : Upheld C Q s T) (upholds : M.Upholds ok seen C)
    (lasts : ∀ i a, C.Lasts (Q i a))
    (hstep : M.Step ok (s, T) (s', T')) (hseen : seen s') : Upheld C Q s' T' ∧ C.later s s' := by
  have calls : ∀ {i : ι} {β : Type} {c : F β} {k : Except ε β → Prog F ε α}, T i = .call c k →
      C.allows c s ∧ ∀ r s2, C.later s s2 → C.inv s2 → (∀ b, r = .ok b → C.promises c b s2) →
        (k r).Honours C (Q i) s2 := by
    intro i β c k next
    have hi := h.honours i
    rw [next] at hi
    exact hi s (C.refl s) h.inv
  cases hstep with
  | exec i next meets done =>
    obtain ⟨hallows, hrest⟩ := calls next
    obtain ⟨hinv, hlater, told⟩ := upholds.exec h.inv meets hallows done hseen
    exact ⟨h.update lasts hinv hlater (hrest _ _ hlater hinv told), hlater⟩
  | raise i e next =>
    have hrest := (calls next).2 (.error e) s (C.refl s) h.inv fun b he => by cases he
    exact ⟨h.update lasts h.inv (C.refl s) hrest, C.refl s⟩
  | interrupt i e next meets done =>
    obtain ⟨hallows, hrest⟩ := calls next
    obtain ⟨hinv, hlater, -⟩ := upholds.exec h.inv meets hallows done hseen
    exact ⟨h.update lasts hinv hlater (hrest _ _ hlater hinv fun b he => by cases he), hlater⟩
  | crash i e =>
    obtain ⟨hinv, hlater⟩ := upholds.leave i s h.inv hseen
    exact ⟨h.update lasts hinv hlater fun a ha => (by cases ha), hlater⟩

/-- When all threads honour the contract, a run through the states keeps to it. -/
theorem Upheld.trace {len : Nat} {τ : Nat → Config F ε σ ι α} (h : Upheld C Q s T)
    (upholds : M.Upholds ok seen C) (lasts : ∀ i a, C.Lasts (Q i a))
    (trace : M.Trace ok (s, T) len τ)
    (hseen : ∀ n ≤ len, seen (τ n).1) {n : Nat} (hn : n ≤ len) :
    Upheld C Q (τ n).1 (τ n).2 ∧ C.later s (τ n).1 := by
  induction n with
  | zero =>
    rw [trace.start]
    exact ⟨h, C.refl _⟩
  | succ n ih =>
    obtain ⟨hbefore, hlater⟩ := ih (Nat.le_of_succ_le hn)
    obtain ⟨hafter, hlast⟩ := hbefore.step upholds lasts (trace.step n hn) (hseen (n + 1) hn)
    exact ⟨hafter, C.trans hlater hlast⟩

omit [DecidableEq ι] in
/-- What a thread has returned meets what it was to end in. -/
theorem Upheld.returned (h : Upheld C Q s T) {i : ι} {a : α} (done : T i = .ret (.ok a)) :
    Q i a s := by
  have hi := h.honours i
  rw [done] at hi
  exact hi a rfl

end Machine

end AssetStore.Lib
