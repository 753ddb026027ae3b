import AssetStore.Lifecycle.Spec
import AssetStore.Registry.States

/-! The grace period. Single calls of the registry and applying sweeps interleave at every
statement; a sweep deletes the bytes of an asset only when it has been expired for the grace period
of its space. The age is a double: it is not rounded up to a grace period of at most `2 ^ 34`
seconds, and one microsecond early it is to every longer one that is a double. -/

namespace AssetStore

open Lib Relation

/-! ### Timestamps of the expired state -/

/-- The timestamp that a call gives an asset that it expires. -/
def Op.Stamps (clock : Nat → Time) (t : Time) : Op → Prop
  | .expireAsset .. | .detachAlias .. | .detachMutableAlias .. => Reads clock t
  | .lifecycleUpdate _ state now _ _ => state = .expired ∧ t = now
  | _ => False

section Stamps

variable {env : Env} {clock : Nat → Time} {op : Op} {id : Text} {a a' : Asset} {r r' : Registry}

/-- An expired asset was expired before with the same timestamp, or the call has expired it. -/
theorem Touch.stamps (h : Touch env clock id op a a') (expired : a'.state = .expired) :
    a.state = .expired ∧ a'.expiredAt = a.expiredAt ∨
      a.state ≠ .expired ∧ ∃ t, a'.expiredAt = some t ∧ op.Stamps clock t := by
  cases h with
  | same => exact .inl ⟨expired, rfl⟩
  | note => exact .inl ⟨expired, rfl⟩
  | enlist => exact .inl ⟨expired, rfl⟩
  | delist => exact .inl ⟨expired, rfl⟩
  | move step =>
    cases step with
    | commit => cases expired
    | expire before reads => exact .inr ⟨by simp [before], _, rfl, reads⟩
    | orphan detaches _ before reads =>
      refine .inr ⟨by rcases before with h | h <;> simp [h], _, rfl, ?_⟩
      obtain ⟨space, name, caller, rfl | rfl⟩ := detaches
      · exact reads
      · exact reads
    | delete => cases expired
    | lapse before => exact .inr ⟨by simp [before], _, rfl, rfl, rfl⟩
    | retire => cases expired
    | purge => cases expired
    | restore => cases expired

/-- A call that takes an asset out of the expired state expires none. -/
theorem Touch.leaves (h : Touch env clock id op a a') (before : a.state = .expired)
    (after : a'.state ≠ .expired) (t : Time) : ¬op.Stamps clock t := by
  cases h with
  | same => exact (after before).elim
  | note => exact (after before).elim
  | enlist => exact (after before).elim
  | delist => exact (after before).elim
  | move step =>
    cases step with
    | commit => exact fun h => h
    | expire => exact (after rfl).elim
    | orphan => exact (after rfl).elim
    | delete => exact fun h => h
    | lapse => exact (after rfl).elim
    | retire => exact fun h => by cases h.1
    | purge => exact fun h => by cases h.1
    | restore => exact fun h => h

theorem Changes.leaves (h : Changes env clock op r r') (get : r.assets.get id = some a)
    (before : a.state = .expired) :
    ∃ a', r'.assets.get id = some a' ∧ (a'.state ≠ .expired → ∀ t, ¬op.Stamps clock t) := by
  induction h with
  | refl => exact ⟨a, get, fun after => (after before).elim⟩
  | tail _ hchange ih =>
    obtain ⟨b, hb, hleft⟩ := ih
    obtain ⟨a', hget, htouch⟩ := hchange.touch hb
    refine ⟨a', hget, fun after t => ?_⟩
    by_cases hexpired : b.state = .expired
    · exact htouch.leaves hexpired after t
    · exact hleft hexpired t

/-- Where the timestamp of an expired asset comes from. -/
theorem Changes.stamps (h : Changes env clock op r r') (get : r'.assets.get id = some a')
    (expired : a'.state = .expired) :
    (∃ a, r.assets.get id = some a ∧ a.state = .expired ∧ a'.expiredAt = a.expiredAt) ∨
      (∀ a, r.assets.get id = some a → a.state ≠ .expired) ∧
        ∃ t, a'.expiredAt = some t ∧ op.Stamps clock t := by
  induction h generalizing a' with
  | refl => exact .inl ⟨a', get, expired, rfl⟩
  | tail hfirst hchange ih =>
    rcases hchange.origin get with ⟨b, hb, htouch⟩ | ⟨req, -, -, hnew, -⟩
    · rcases htouch.stamps expired with ⟨hexpired, hsame⟩ | ⟨hlive, t, ht, hstamps⟩
      · rw [hsame]
        exact ih hb hexpired
      · refine .inr ⟨fun a ha hbefore => ?_, t, ht, hstamps⟩
        obtain ⟨c, hc, hleft⟩ := Changes.leaves hfirst ha hbefore
        obtain rfl := Option.some.inj (hb.symm.trans hc)
        exact hleft hlive t hstamps
    · cases hnew.state.symm.trans expired

end Stamps

/-! ### Rounded ages -/

/-- An age that as a double reaches a number of seconds up to `2 ^ 34` reaches it. -/
theorem elapsed_of_totalSeconds {n : Int} {later earlier : Time} (nonneg : 0 ≤ n)
    (short : n ≤ 17179869184) (h : (n : Rat) ≤ Arithmetic.double.totalSeconds later earlier) :
    n * 1000000 ≤ later - earlier := by
  have hreached : (n : Rat) ≤ ((later - earlier : Int) : Rat) / 1000000 := by
    refine le_of_le_nearestDouble (show (0 : Int) < 34 by decide) (by decide)
      (by exact_mod_cast nonneg) (by exact_mod_cast short) (fun hearly => ?_) h
    -- an age that is early is early by a microsecond
    rw [div_lt_iff₀ (by norm_num)] at hearly
    have hearly' : (later - earlier) + 1 ≤ n * 1000000 := by exact_mod_cast hearly
    have hgap : ((later - earlier : Int) : Rat) + 1 ≤ n * 1000000 := by exact_mod_cast hearly'
    have hspacing : (2 : Rat) ^ ((34 : Int) - 54) < 1 / 1000000 := by norm_num
    linarith
  rw [le_div_iff₀ (by norm_num)] at hreached
  exact_mod_cast hreached

/-! ### Actors -/

/-- Who takes part in a run: a single call of the registry, or an applying sweep. -/
inductive Actor
  | call (op : Op)
  | sweep (policy : SweepPolicy) (now : Option Time)

def Actor.prog (env : Env) : Actor → GuardProg Unit
  | .call (.reserveAsset newId req) => do
    let _ ← .perform (.reserveAsset env newId req)
  | .call op => do
    let _ ← registry (op.run env)
  | .sweep policy now => do
    let _ ← runSweep .double policy false now

/-- The generated id of a reservation is not in use. -/
def FreshId {β : Type} : Cmd β → GuardState → Prop
  | .reserveAsset _ newId _, g => g.reg.assets.get newId = none
  | _, _ => True

/-- The registry calls of an actor. The maintenance updates of a sweep are all at one instant, which
is the one that it was given, if any. -/
inductive Actor.Makes : Actor → Op → Prop
  | call {op : Op} : Makes (.call op) op
  | expire {policy : SweepPolicy} {given : Option Time} {now : Time} {a : Asset} {reason : Text}
      (instant : ∀ t ∈ given, now = t) :
      Makes (.sweep policy given) (.lifecycleUpdate a .expired now reason false)
  | retire {policy : SweepPolicy} {given : Option Time} {now : Time} {a : Asset} {reason : Text}
      (instant : ∀ t ∈ given, now = t) (elapsed : GraceElapsed .double policy now a) :
      Makes (.sweep policy given) (.lifecycleUpdate a .deleted now reason false)
  | purge {policy : SweepPolicy} {given : Option Time} {now : Time} {a : Asset} {reason : Text}
      (instant : ∀ t ∈ given, now = t) (deleted : a.state = .deleted) :
      Makes (.sweep policy given) (.lifecycleUpdate a .deleted now reason true)

/-- The command leaves the registry, or it makes one call of the actor. -/
def Actor.Issues (env : Env) (actor : Actor) (β : Type) (c : Cmd β) : Prop :=
  ∀ g, FreshId c g → (final (Cmd.sem β c g)).reg = g.reg ∨
    ∃ op, actor.Makes op ∧ op.Fresh g.reg ∧ (final (Cmd.sem β c g)).reg = op.exec env g.clock g.reg

section Issues

variable {env : Env} {actor : Actor} {op : Op}

theorem liftRegistry_reg {α : Type} (m : RegM α) (g : GuardState) :
    (final (liftRegistry m g)).reg = (final (m ⟨g.reg, g.clock⟩)).reg := by
  unfold liftRegistry
  cases m ⟨g.reg, g.clock⟩ with
  | ok a s => rfl
  | error e s => rfl

theorem liftRegistry_keeps {α : Type} {m : RegM α} (h : Keeps (fun r => r) m) (g : GuardState) :
    (final (liftRegistry m g)).reg = g.reg := (liftRegistry_reg m g).trans (h ⟨g.reg, g.clock⟩)

theorem Actor.Issues.of_keeps {β : Type} {c : Cmd β}
    (h : ∀ g, (final (Cmd.sem β c g)).reg = g.reg) : actor.Issues env β c := fun g _ => .inl (h g)

/-- A maintenance update that closes a locked block. -/
theorem Actor.Issues.update {id : Text} {a : Asset} {state : AssetState} {now : Time}
    {reason : Text}
    {purge : Bool} (h : actor.Makes (.lifecycleUpdate a state now reason purge)) :
    actor.Issues env Bool (.closeLock id do
      let _ ← lifecycleUpdate a state now reason purge
      return true) := by
  refine fun g _ => .inr ⟨_, h, trivial, ?_⟩
  rw [Cmd.sem, liftRegistry_reg]
  simp only [Op.exec, Op.run, final_bind_pure]

theorem SweepCmd.issues {policy : SweepPolicy} {given : Option Time} {now : Time}
    {β : Type} {c : Cmd β}
    (h : SweepCmd .double policy now β c) (instant : ∀ t ∈ given, now = t) :
    (Actor.sweep policy given).Issues env β c := by
  cases h with
  | read keeps => exact .of_keeps (liftRegistry_keeps keeps)
  | enter => exact .of_keeps (liftRegistry_keeps Within.getAsset)
  | quit => exact .of_keeps fun _ => rfl
  | erase => exact .of_keeps fun _ => rfl
  | skip => exact .of_keeps (liftRegistry_keeps Within.pure)
  | expire => exact .update (.expire instant)
  | retire elapsed => exact .update (.retire instant elapsed)
  | purge deleted => exact .update (.purge instant deleted)

theorem Actor.prog_all (env : Env) (actor : Actor) :
    (actor.prog env).All (actor.Issues env) fun _ => True := by
  have call : ∀ {op : Op}, (∀ newId req, op ≠ .reserveAsset newId req) →
      (registry (op.run env)).All ((Actor.call op).Issues env) fun _ => True := by
    intro op hop
    exact .perform fun g _ => .inr ⟨op, .call, Op.fresh_of_ne hop _, liftRegistry_reg _ g⟩
  cases actor with
  | call op =>
    cases op with
    | reserveAsset newId req =>
      refine .bind (.perform fun g fresh => .inr ⟨_, .call, fresh, ?_⟩) fun _ _ => .ret
      rw [Cmd.sem, liftRegistry_reg]
      simp only [Op.exec, Op.run, final_bind_pure]
    | _ => exact .bind (call fun _ _ => by simp) fun _ _ => .ret
  | sweep policy given =>
    refine .bind (Prog.All.mono runSweep_all ?_) fun _ _ => .ret
    rintro β c ⟨now, instant, hc⟩
    exact hc.issues instant

end Issues

/-! ### Runs -/

section Runs

variable {ι : Type} [DecidableEq ι] {env : Env} {actors : ι → Actor} {i : ι} {grace : Int}
  {g : GuardState} {len n : Nat} {τ : Nat → Machine.Config Cmd Err GuardState ι Unit} {id : Text}
  {a a' : Asset}

/-- The runs of the actors from a new registry. -/
structure ActorsRun (env : Env) (actors : ι → Actor) (grace : Int) (g : GuardState) (len : Nat)
    (τ : Nat → Machine.Config Cmd Err GuardState ι Unit) : Prop where
  initial : g.reg = Registry.initial grace
  trace : (interleaved ι).Trace (fun _ c g => FreshId c g) (g, fun i => (actors i).prog env) len τ

abbrev ActsIn (i : ι) (c c' : Machine.Config Cmd Err GuardState ι Unit) : Prop :=
  (interleaved ι).Acts (fun _ c g => FreshId c g) i c c'

omit [DecidableEq ι] in
theorem interleaved_reg {β : Type} {c : Cmd β} {g g' : GuardState} {r : Except Err β}
    (h : (interleaved ι).exec i c g = some (r, g')) : g' = final (Cmd.sem β c g) := by
  simp only [interleaved] at h
  cases hsem : Cmd.sem β c g with
  | ok b g1 =>
    simp only [hsem, Option.some.injEq, Prod.mk.injEq] at h
    exact h.2.symm
  | error e g1 =>
    simp only [hsem, Option.some.injEq, Prod.mk.injEq] at h
    exact h.2.symm

/-- A command of an actor leaves the registry, or makes one of its calls. -/
theorem ActorsRun.acts (h : ActorsRun env actors grace g len τ) (hn : n ≤ len)
    {c' : Machine.Config Cmd Err GuardState ι Unit} (acts : ActsIn i (τ n) c') :
    c'.1.reg = (τ n).1.reg ∨ ∃ op, (actors i).Makes op ∧ op.Fresh (τ n).1.reg ∧
      c'.1.reg = op.exec env (τ n).1.clock (τ n).1.reg := by
  obtain ⟨β, cmd, k, r, r', next, fresh, done, -⟩ := acts
  have hall := h.trace.all (fun i => (actors i).prog_all env) hn i
  rw [next] at hall
  rw [interleaved_reg done]
  exact hall.1 _ fresh

theorem ActorsRun.step (h : ActorsRun env actors grace g len τ) (hn : n < len) :
    (τ (n + 1)).1.reg = (τ n).1.reg ∨
      ∃ i op, ActsIn i (τ n) (τ (n + 1)) ∧ (actors i).Makes op ∧ op.Fresh (τ n).1.reg ∧
        (τ (n + 1)).1.reg = op.exec env (τ n).1.clock (τ n).1.reg := by
  rcases (h.trace.step n hn).acts with ⟨i, hacts⟩ | hsame | ⟨i, hleft⟩
  · refine (h.acts hn.le hacts).imp_right ?_
    rintro ⟨op, hmakes, hfresh, hexec⟩
    exact ⟨i, op, hacts, hmakes, hfresh, hexec⟩
  · exact .inl (congrArg GuardState.reg hsame)
  · exact .inl (congrArg GuardState.reg hleft)

/-- The registry of a run is one that calls lead to. -/
theorem ActorsRun.runs (h : ActorsRun env actors grace g len τ) (hn : n ≤ len) :
    ∃ calls, AssetStore.Runs env (Registry.initial grace) calls (τ n).1.reg := by
  induction n with
  | zero =>
    rw [h.trace.start, h.initial]
    exact ⟨[], .nil⟩
  | succ n ih =>
    obtain ⟨calls, hcalls⟩ := ih (Nat.le_of_succ_le hn)
    rcases h.step hn with hsame | ⟨i, op, -, -, hfresh, hexec⟩
    · rw [hsame]
      exact ⟨calls, hcalls⟩
    · rw [hexec]
      exact ⟨_, hcalls.snoc hfresh⟩

/-- A step expires the asset, with the timestamp of the call that expires it. -/
def Enters (env : Env) (actors : ι → Actor) (id : Text) (t : Time)
    (c c' : Machine.Config Cmd Err GuardState ι Unit) : Prop :=
  (∀ a, c.1.reg.assets.get id = some a → a.state ≠ .expired) ∧
    ∃ i op, ActsIn i c c' ∧ (actors i).Makes op ∧ c'.1.reg = op.exec env c.1.clock c.1.reg ∧
      op.Stamps c.1.clock t

/-- Since a step that expired it with this timestamp, the asset has been expired. -/
def ExpiredSince (env : Env) (actors : ι → Actor) (id : Text) (t : Time)
    (τ : Nat → Machine.Config Cmd Err GuardState ι Unit) (n : Nat) : Prop :=
  ∃ m < n, Enters env actors id t (τ m) (τ (m + 1)) ∧ ∀ k, m < k → k ≤ n →
    ∃ a, (τ k).1.reg.assets.get id = some a ∧ a.state = .expired ∧ a.expiredAt = some t

theorem ActorsRun.expiredSince (h : ActorsRun env actors grace g len τ) (hn : n ≤ len)
    (get : (τ n).1.reg.assets.get id = some a) (expired : a.state = .expired) :
    ∃ t, a.expiredAt = some t ∧ ExpiredSince env actors id t τ n := by
  induction n generalizing a with
  | zero =>
    rw [h.trace.start, h.initial] at get
    cases get
  | succ n ih =>
    -- the asset was expired before with the same timestamp
    have kept : ∀ b, (τ n).1.reg.assets.get id = some b → b.state = .expired →
        a.expiredAt = b.expiredAt → ∃ t, a.expiredAt = some t ∧
          ExpiredSince env actors id t τ (n + 1) := by
      intro b hb hexpired hsame
      obtain ⟨t, ht, m, hm, henters, hsince⟩ := ih (Nat.le_of_succ_le hn) hb hexpired
      refine ⟨t, hsame.trans ht, m, Nat.lt_succ_of_lt hm, henters, fun k hmk hk => ?_⟩
      rcases Nat.lt_or_eq_of_le hk with hlt | rfl
      · exact hsince k hmk (Nat.lt_succ_iff.mp hlt)
      · exact ⟨a, get, expired, hsame.trans ht⟩
    rcases h.step hn with hsame | ⟨i, op, hacts, hmakes, hfresh, hexec⟩
    · exact kept a (hsame ▸ get) expired rfl
    · obtain ⟨calls, hcalls⟩ := h.runs (Nat.le_of_succ_le hn)
      have hchanges : Changes env (τ n).1.clock op (τ n).1.reg (τ (n + 1)).1.reg := by
        rw [hexec]
        exact Op.exec_changes hcalls.sound.1 hcalls.indexed hfresh
      rcases Changes.stamps hchanges get expired with
        ⟨b, hb, hexpired, hsame⟩ | ⟨hlive, t, ht, hstamps⟩
      · exact kept b hb hexpired hsame
      · refine ⟨t, ht, n, Nat.lt_succ_self n, ⟨hlive, i, op, hacts, hmakes, hexec, hstamps⟩,
          fun k hnk hk => ?_⟩
        obtain rfl : k = n + 1 := Nat.le_antisymm hk hnk
        exact ⟨a, get, expired, ht⟩

/-- A sweep that moves an asset to the deleted state does not find it available; a committed asset
has been expired, since the step that expired it last, for the grace period of its space, if that is
at most `2 ^ 34` seconds. -/
theorem grace_of_runs (h : ActorsRun env actors grace g len τ) (hn : n < len) {policy : SweepPolicy}
    {given : Option Time} (hi : actors i = .sweep policy given) (acts : ActsIn i (τ n) (τ (n + 1)))
    (get : (τ n).1.reg.assets.get id = some a) (get' : (τ (n + 1)).1.reg.assets.get id = some a')
    (live : a.state ≠ .deleted) (deleted : a'.state = .deleted) :
    a.state ≠ .available ∧ (policy.graceSeconds a.space ≤ 17179869184 → a.sizeBytes ≠ none →
      ∃ t now, ExpiredSince env actors id t τ n ∧ (∀ t' ∈ given, now = t') ∧ a'.updatedAt = now ∧
        policy.graceSeconds a.space * 1000000 ≤ now - t) := by
  obtain ⟨calls, hcalls⟩ := h.runs hn.le
  have changed : a' ≠ a := fun heq => live (heq ▸ deleted)
  rcases h.acts hn.le acts with hsame | ⟨op, hmakes, -, hexec⟩
  · rw [hsame] at get'
    exact (changed (Option.some.inj (get'.symm.trans get))).elim
  rw [hi] at hmakes
  rw [hexec] at get'
  cases hmakes with
  | expire instant =>
    obtain ⟨-, -, rfl⟩ := (hcalls.exec_lifecycleUpdate get get').resolve_left changed
    cases deleted
  | @retire _ _ now _ _ instant elapsed =>
    obtain ⟨rfl, hallowed, rfl⟩ := (hcalls.exec_lifecycleUpdate get get').resolve_left changed
    have hstate : a.state ≠ .available := by
      rcases (validateCleanupTransition_eq_ok.mp hallowed).1 with ⟨hx, -, -⟩ | ⟨-, hs, -⟩
      · cases hx
      · rcases hs with hs | hs | hs <;> simp [hs]
    refine ⟨hstate, fun short sized => ?_⟩
    have hexpired : a.state = .expired := by
      cases hs : a.state with
      | pending => exact (sized ((hcalls.shaped _ a get).pending hs).1).elim
      | available => exact (hstate hs).elim
      | expired => rfl
      | deleted => exact (live hs).elim
    obtain ⟨t, ht, hsince⟩ := h.expiredSince hn.le get hexpired
    have hgrace := elapsed hexpired
    rw [ht, Option.getD_some] at hgrace
    have hspace := (hcalls.sound.1.row_valid id _ (Registry.books_get get)).space_mem
    exact ⟨t, now, hsince, instant, rfl,
      elapsed_of_totalSeconds (policy.grace_nonneg _ hspace) short hgrace⟩
  | purge instant hdeleted =>
    obtain ⟨rfl, -, -⟩ := (hcalls.exec_lifecycleUpdate get get').resolve_left changed
    exact (live hdeleted).elim

/-! An upload that is expired and swept when its grace period is over, or one microsecond before. -/

instance {β : Type} (c : Cmd β) (g : GuardState) : Decidable (FreshId c g) :=
  decidable_of_iff (∀ newId ∈ c.newId, g.reg.assets.get newId = none) (by
    cases c <;> simp [Cmd.newId, FreshId])

def sweptActors (policy : SweepPolicy) (now : Time) : Fin 4 → Actor
  | 0 => .call reserveCall
  | 1 => .call commitCall
  | 2 => .call (.expireAsset "a1".toList "svc".toList)
  | 3 => .sweep policy (some now)

def sweptConfig (policy : SweepPolicy) (now : Time) :
    Machine.Config Cmd Err GuardState (Fin 4) Unit :=
  (⟨.initial 0, .empty, .empty, fun _ => 0⟩, fun i => (sweptActors policy now i).prog plainEnv)

def sweptTrace (policy : SweepPolicy) (now : Time) :
    Nat → Machine.Config Cmd Err GuardState (Fin 4) Unit :=
  (interleaved (Fin 4)).playTrace (fun _ c g => decide (FreshId c g)) [0, 1, 2, 3, 3, 3, 3]
    (sweptConfig policy now)

theorem sweptTrace_run {policy : SweepPolicy} {now : Time}
    (plays : ((interleaved (Fin 4)).play (fun _ c g => decide (FreshId c g)) [0, 1, 2, 3, 3, 3, 3]
      (sweptConfig policy now)).isSome) :
    ActorsRun plainEnv (sweptActors policy now) 0 (sweptConfig policy now).1 7
        (sweptTrace policy now) ∧
      ActsIn 3 (sweptTrace policy now 6) (sweptTrace policy now 7) := by
  refine ⟨⟨rfl, ?_⟩, ?_⟩
  · have htrace := Machine.playTrace_trace plays
    simp only [decide_eq_true_eq] at htrace
    exact htrace
  · have hstep := (Machine.acts_of_play (Machine.playTrace_step plays (show 6 < 7 by decide))).2
    simp only [decide_eq_true_eq] at hstep
    exact hstep

theorem grace_swept :
    ActorsRun plainEnv (sweptActors .standard 604800000000) 0
        (sweptConfig .standard 604800000000).1 7 (sweptTrace .standard 604800000000) ∧
      ∃ a a', (sweptTrace .standard 604800000000 6).1.reg.assets.get "a1".toList = some a ∧
        a.state = .expired ∧
        (sweptTrace .standard 604800000000 7).1.reg.assets.get "a1".toList = some a' ∧
        a'.state = .deleted ∧ ∃ t now, ExpiredSince plainEnv (sweptActors .standard 604800000000)
          "a1".toList t (sweptTrace .standard 604800000000) 6 ∧ now = 604800000000 ∧
            604800 * 1000000 ≤ now - t := by
  obtain ⟨hrun, hacts⟩ := @sweptTrace_run .standard 604800000000
    (by decide +kernel)
  have hbefore : ((sweptTrace .standard 604800000000 6).1.reg.assets.get "a1".toList).any (fun a =>
      a.state == .expired && a.sizeBytes == some 3 && a.space == "cache".toList) = true := by
    decide +kernel
  have hafter : ((sweptTrace .standard 604800000000 7).1.reg.assets.get "a1".toList).any (fun a =>
      a.state == .deleted) = true := by decide +kernel
  obtain ⟨a, get, ha⟩ := (Option.any_eq_true _ _).mp hbefore
  obtain ⟨a', get', ha'⟩ := (Option.any_eq_true _ _).mp hafter
  simp only [Bool.and_eq_true, beq_iff_eq] at ha ha'
  obtain ⟨⟨hstate, hsize⟩, hspace⟩ := ha
  have hweek : SweepPolicy.standard.graceSeconds a.space = 604800 := by
    rw [hspace]
    decide
  obtain ⟨-, hgrace⟩ := grace_of_runs hrun (show 6 < 7 by decide) rfl hacts get get'
    (by simp [hstate]) ha'
  obtain ⟨t, now, hsince, hnow, -, helapsed⟩ := hgrace (by rw [hweek]; decide) (by simp [hsize])
  exact ⟨hrun, a, a', get, hstate, get', ha', t, now, hsince, hnow _ rfl, hweek ▸ helapsed⟩

/-- Assets wait for half a millennium. -/
def patientPolicy : SweepPolicy where
  __ := SweepPolicy.standard
  graceSeconds _ := 17179869185
  grace_nonneg := by decide

/-- One microsecond before the grace period is over, the bytes of a committed asset are deleted. -/
theorem grace_rounded :
    ActorsRun plainEnv (sweptActors patientPolicy 17179869184999999) 0
        (sweptConfig patientPolicy 17179869184999999).1 7
        (sweptTrace patientPolicy 17179869184999999) ∧
      ∃ a a', (sweptTrace patientPolicy 17179869184999999 6).1.reg.assets.get "a1".toList = some a ∧
        a.state = .expired ∧ a.sizeBytes = some 3 ∧ a.expiredAt = some 0 ∧
        (sweptTrace patientPolicy 17179869184999999 7).1.reg.assets.get "a1".toList = some a' ∧
        a'.state = .deleted ∧ a'.updatedAt = 17179869184999999 ∧
        (17179869184999999 : Int) - 0 < patientPolicy.graceSeconds a.space * 1000000 := by
  obtain ⟨hrun, -⟩ := @sweptTrace_run patientPolicy 17179869184999999
    (by decide +kernel)
  have hbefore : ((sweptTrace patientPolicy 17179869184999999 6).1.reg.assets.get "a1".toList).any
      (fun a => a.state == .expired && a.sizeBytes == some 3 && a.expiredAt == some 0) = true := by
    decide +kernel
  have hafter : ((sweptTrace patientPolicy 17179869184999999 7).1.reg.assets.get "a1".toList).any
      (fun a => a.state == .deleted && a.updatedAt == 17179869184999999) = true := by
    decide +kernel
  obtain ⟨a, get, ha⟩ := (Option.any_eq_true _ _).mp hbefore
  obtain ⟨a', get', ha'⟩ := (Option.any_eq_true _ _).mp hafter
  simp only [Bool.and_eq_true, beq_iff_eq] at ha ha'
  obtain ⟨⟨hstate, hsize⟩, hexpired⟩ := ha
  exact ⟨hrun, a, a', get, hstate, hsize, hexpired, get', ha'.1, ha'.2, by
    show (17179869184999999 : Int) - 0 < 17179869185 * 1000000
    decide⟩

end Runs

end AssetStore
