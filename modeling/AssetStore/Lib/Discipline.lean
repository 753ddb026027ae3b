import AssetStore.Lib.Threads

/-! Interference between the threads of a machine. A discipline names an invariant of the state and
what each thread may rely on while others work. A thread that obeys it keeps the invariant and what
the others rely on; when all threads obey it, the invariant holds in every state of every run. -/

namespace AssetStore.Lib

universe u

variable {F : Type → Type u} {ε σ ι α β : Type}

/-- An invariant, and what a thread relies on between two of its commands. -/
structure Discipline (M : Machine F ε σ ι) where
  inv : σ → Prop
  rely : ι → σ → σ → Prop
  refl : ∀ i s, rely i s s
  trans : ∀ {i s s' s''}, rely i s s' → rely i s' s'' → rely i s s''
  leave : ∀ i s, inv s → inv (M.leave i s) ∧ ∀ j, j ≠ i → rely j s (M.leave i s)

namespace Discipline

variable {M : Machine F ε σ ι} (D : Discipline M) (ok : {β : Type} → ι → F β → σ → Prop) (i : ι)

/-- A command of thread `i` that takes the state from `s` to `s'` breaks nothing. -/
structure Fair (s s' : σ) : Prop where
  inv : D.inv s'
  rely : ∀ j, j ≠ i → D.rely j s s'

/-- Started in the state, the program keeps the discipline whatever the other threads do, also when
exceptions break in, and it ends in `Q`. -/
def Obeys (Q : Except ε α → σ → Prop) : Prog F ε α → σ → Prop
  | .ret r, s => Q r s
  | .call c k, s => ∀ s1, D.rely i s s1 → D.inv s1 →
      (∀ e, Obeys Q (k (.error e)) s1) ∧
      ∀ r s2, ok i c s1 → M.exec i c s1 = some (r, s2) →
        D.Fair i s1 s2 ∧ Obeys Q (k r) s2 ∧ ∀ e, Obeys Q (k (.error e)) s2

variable {D} {ok : {β : Type} → ι → F β → σ → Prop} {i : ι}

namespace Obeys

variable {Q : Except ε α → σ → Prop} {Q' : Except ε β → σ → Prop} {s s' : σ}

theorem conseq {R : Except ε α → σ → Prop} {p : Prog F ε α} (h : D.Obeys ok i Q p s)
    (weaker : ∀ r s', Q r s' → R r s') : D.Obeys ok i R p s := by
  induction p generalizing s with
  | ret r => exact weaker r s h
  | call c k ih =>
    intro s1 hrely hinv
    obtain ⟨raised, executed⟩ := h s1 hrely hinv
    refine ⟨fun e => ih _ (raised e), fun r s2 hok hexec => ?_⟩
    obtain ⟨fair, returned, late⟩ := executed r s2 hok hexec
    exact ⟨fair, ih _ returned, fun e => ih _ (late e)⟩

theorem bind {p : Prog F ε α} {f : α → Prog F ε β} (hp : D.Obeys ok i Q p s)
    (returned : ∀ a s', Q (.ok a) s' → D.Obeys ok i Q' (f a) s')
    (raised : ∀ e s', Q (.error e) s' → Q' (.error e) s') : D.Obeys ok i Q' (p >>= f) s := by
  change D.Obeys ok i Q' (p.bind f) s
  induction p generalizing s with
  | ret r =>
    cases r with
    | ok a => exact returned a s hp
    | error e => exact raised e s hp
  | call c k ih =>
    intro s1 hrely hinv
    obtain ⟨before, executed⟩ := hp s1 hrely hinv
    refine ⟨fun e => ih _ (before e), fun r s2 hok hexec => ?_⟩
    obtain ⟨fair, next, late⟩ := executed r s2 hok hexec
    exact ⟨fair, ih _ next, fun e => ih _ (late e)⟩

theorem ret_bind {r : Except ε α} {f : α → Prog F ε β}
    (returned : ∀ a, r = .ok a → D.Obeys ok i Q' (f a) s)
    (raised : ∀ e, r = .error e → Q' (.error e) s) :
    D.Obeys ok i Q' (.ret r >>= f) s := by
  cases r with
  | ok a => exact returned a rfl
  | error e => exact raised e rfl

theorem tryCatch {p : Prog F ε α} {handler : ε → Prog F ε α} {R : Except ε α → σ → Prop}
    (hp : D.Obeys ok i Q p s) (returned : ∀ a s', Q (.ok a) s' → R (.ok a) s')
    (raised : ∀ e s', Q (.error e) s' → D.Obeys ok i R (handler e) s') :
    D.Obeys ok i R (p.tryCatch handler) s := by
  induction p generalizing s with
  | ret r =>
    cases r with
    | ok a => exact returned a s hp
    | error e => exact raised e s hp
  | call c k ih =>
    intro s1 hrely hinv
    obtain ⟨before, executed⟩ := hp s1 hrely hinv
    refine ⟨fun e => ih _ (before e), fun r s2 hok hexec => ?_⟩
    obtain ⟨fair, next, late⟩ := executed r s2 hok hexec
    exact ⟨fair, ih _ next, fun e => ih _ (late e)⟩

theorem cleaningUp {p : Prog F ε α} {cleanup : Prog F ε Unit} {R : Except ε α → σ → Prop}
    {C : Except ε Unit → σ → Prop} (hp : D.Obeys ok i Q p s)
    (returned : ∀ a s', Q (.ok a) s' → R (.ok a) s')
    (raised : ∀ e s', Q (.error e) s' → D.Obeys ok i C cleanup s')
    (cleaned : ∀ r s' e, C r s' → R (.error e) s') :
    D.Obeys ok i R (p.cleaningUp cleanup) s :=
  hp.tryCatch returned fun e s' h =>
    (raised e s' h).bind (fun _ s'' h' => cleaned _ s'' e h') fun e' s'' h' => cleaned _ s'' e' h'

theorem ite {c : Prop} [Decidable c] {p q : Prog F ε α} (hp : c → D.Obeys ok i Q p s)
    (hq : ¬c → D.Obeys ok i Q q s) : D.Obeys ok i Q (if c then p else q) s := by
  split
  · exact hp ‹_›
  · exact hq ‹_›

/-- A single command. `Q` must hold also where an exception breaks in. -/
theorem perform {c : F α} (before : ∀ s1 e, D.rely i s s1 → D.inv s1 → Q (.error e) s1)
    (after : ∀ s1 r s2, D.rely i s s1 → D.inv s1 → ok i c s1 → M.exec i c s1 = some (r, s2) →
      D.Fair i s1 s2 ∧ Q r s2 ∧ ∀ e, Q (.error e) s2) :
    D.Obeys ok i Q (.perform c) s := fun s1 hrely hinv =>
  ⟨fun e => before s1 e hrely hinv, fun r s2 hok hexec => after s1 r s2 hrely hinv hok hexec⟩

/-- A thread may be started later, as long as what it relies on is kept. -/
theorem of_rely {p : Prog F ε α} (h : D.Obeys ok i (fun _ _ => True) p s) (hrely : D.rely i s s') :
    D.Obeys ok i (fun _ _ => True) p s' := by
  cases p with
  | ret r => trivial
  | call c k => exact fun s1 hrely' => h s1 (D.trans hrely hrely')

end Obeys

/-- The command keeps the discipline on its own, and what its own thread relies on too. -/
def Neutral (D : Discipline M) (ok : {β : Type} → ι → F β → σ → Prop) (i : ι) (β : Type) (c : F β) :
    Prop :=
  ∀ s r s', D.inv s → ok i c s → M.exec i c s = some (r, s') → D.inv s' ∧ ∀ j, D.rely j s s'

/-- A program of neutral commands ends in a state that its thread could rely on. -/
theorem obeys_of_neutral {P : α → Prop} {p : Prog F ε α} (h : p.All (D.Neutral ok i) P) {s : σ}
    (start : D.inv s) :
    D.Obeys ok i (fun r s' => D.inv s' ∧ D.rely i s s' ∧ ∀ a, r = .ok a → P a) p s := by
  suffices ∀ s', D.inv s' → D.rely i s s' →
      D.Obeys ok i (fun r s'' => D.inv s'' ∧ D.rely i s s'' ∧ ∀ a, r = .ok a → P a) p s' from
    this s start (D.refl i s)
  induction p with
  | ret r => exact fun s' hinv hrely => ⟨hinv, hrely, h⟩
  | call c k ih =>
    intro s' _ hrely s1 hrely1 hinv1
    have hs1 := D.trans hrely hrely1
    refine ⟨fun e => ih _ (h.2 _) s1 hinv1 hs1, fun r s2 hok hexec => ?_⟩
    obtain ⟨hinv2, hrely2⟩ := h.1 s1 r s2 hinv1 hok hexec
    have hs2 := D.trans hs1 (hrely2 i)
    exact ⟨⟨hinv2, fun j _ => hrely2 j⟩, ih _ (h.2 _) s2 hinv2 hs2,
      fun e => ih _ (h.2 _) s2 hinv2 hs2⟩

section Runs

variable [DecidableEq ι] {s s' : σ} {T T' : ι → Prog F ε α}

/-- All threads obey the discipline. -/
structure Kept (D : Discipline M) (ok : {β : Type} → ι → F β → σ → Prop) (s : σ)
    (T : ι → Prog F ε α) : Prop where
  inv : D.inv s
  obeys : ∀ j, D.Obeys ok j (fun _ _ => True) (T j) s

/-- A step of one thread leaves the others what they rely on. -/
theorem Kept.update (h : D.Kept ok s T) (fair : D.Fair i s s') {p : Prog F ε α}
    (hp : D.Obeys ok i (fun _ _ => True) p s') : D.Kept ok s' (Function.update T i p) where
  inv := fair.inv
  obeys j := by
    by_cases hji : j = i
    · subst hji
      rwa [Function.update_self]
    · rw [Function.update_of_ne hji]
      exact (h.obeys j).of_rely (fair.rely j hji)

theorem Kept.step (h : D.Kept ok s T) (hstep : M.Step ok (s, T) (s', T')) : D.Kept ok s' T' := by
  have fair_refl : ∀ j, D.Fair j s s := fun _ => ⟨h.inv, fun k _ => D.refl k s⟩
  cases hstep with
  | exec j next meets done =>
    have hobeys := h.obeys j
    rw [next] at hobeys
    obtain ⟨fair, returned, -⟩ := (hobeys s (D.refl j s) h.inv).2 _ _ meets done
    exact h.update fair returned
  | raise j e next =>
    have hobeys := h.obeys j
    rw [next] at hobeys
    exact h.update (fair_refl j) ((hobeys s (D.refl j s) h.inv).1 e)
  | interrupt j e next meets done =>
    have hobeys := h.obeys j
    rw [next] at hobeys
    obtain ⟨fair, -, late⟩ := (hobeys s (D.refl j s) h.inv).2 _ _ meets done
    exact h.update fair (late e)
  | crash j e =>
    obtain ⟨hinv, hrely⟩ := D.leave j s h.inv
    exact h.update ⟨hinv, hrely⟩ trivial

/-- When all threads obey the discipline, the invariant holds in every state of every run. -/
theorem Kept.runs (h : D.Kept ok s T) (run : M.Runs ok (s, T) (s', T')) : D.Kept ok s' T' := by
  generalize hc : (s', T') = c at run
  induction run generalizing s' T' with
  | refl =>
    obtain ⟨rfl, rfl⟩ := Prod.mk.inj hc
    exact h
  | tail _ hstep ih =>
    subst hc
    exact (ih rfl).step hstep

end Runs

end Discipline

end AssetStore.Lib
