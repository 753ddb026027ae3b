import AssetStore.Admin.Actions
import AssetStore.Lifecycle.Turns

/-! Optimistic revisions under concurrency. Registry calls, writes, actions of the console and
applying sweeps take turns in any order, where locked blocks are atomic and the clock strictly
increases. An asset that still has the revision that an operator has seen is the one that the
operator has seen, unless it was read between the two blocks of a purge. -/

namespace AssetStore

open Lib

/-! ### Jobs -/

/-- What a thread does. -/
inductive Job
  | call (op : Op)
      (plain : ∀ a state now reason purge, op ≠ .lifecycleUpdate a state now reason purge)
  | write (newId : Text) (cap : Capability) (aliasName : Text) (data : List UInt8)
      (opts : WriteOptions)
  | mutate (assetId : Text) (body : Mutation)
  | bulk (pathPrefix : Text) (body : BulkApply)
  | sweep (policy : SweepPolicy)

/-- The rest of a thread after its program. -/
def hangUp {α : Type} : Except Err α → GuardProg Unit := fun _ => .ret (.ok ())

def Job.prog (env : Env) : Job → GuardProg Unit
  | .call op _ => (registry (op.run env)).andThen hangUp
  | .write newId cap aliasName data opts =>
    (writeObject env newId cap aliasName data opts).andThen hangUp
  | .mutate assetId body => (AssetStore.mutate env assetId body).andThen hangUp
  | .bulk pathPrefix body => (AssetStore.bulk pathPrefix body).andThen hangUp
  | .sweep policy => (runSweep .double policy false none).andThen hangUp

section Actions

variable {env : Env} {id : Text} {a : Asset} {g g' : GuardState} {body : Mutation}
  {query : AssetQuery}
  {candidate : Candidate}

theorem mutate_atomic : (mutate env id body).Atomic lockBlocks Cmd.sem :=
  withAssetLock_atomic fun _ => .bind .ret fun _ _ => .ret

theorem detachOwn_revises {ok : Text → Time → Prop} {t : Time} {name : Text}
    (fresh : ∀ id now, t < now → ok id now) : Within (Revises ok t) (detachOwn a name) := by
  refine Within.bind Within.attempt fun _ => Within.tryCatch (Revises.detachAlias fresh) fun e => ?_
  exact Within.ite (Within.bind (Revises.detachMutableAlias fresh) fun _ => Within.pure)
    Within.attempt

theorem apply_revises {ok : Text → Time → Prop} {t : Time} (fresh : ∀ id now, t < now → ok id now) :
    Within (Revises ok t) (body.apply env id a) := by
  have void : ∀ {α : Type} {m : RegM α}, Within (Revises ok t) m →
      Within (Revises ok t) (m >>= fun _ => pure ()) := fun h => Within.bind h fun _ => Within.pure
  have need : ∀ {α β : Type} {value : Option α} {message : String} {f : α → RegM β},
      (∀ x, Within (Revises ok t) (f x)) → Within (Revises ok t) (required value message >>= f) :=
    fun h => Within.bind Within.attempt h
  unfold Mutation.apply
  cases body.action with
  | expire => exact void (Revises.expireAsset fresh)
  | delete => exact void (Revises.deleteAsset fresh)
  | ttl => exact need fun _ => void (Revises.setAssetTtl fresh)
  | attach => exact need fun _ => void (Revises.attachAlias fresh)
  | detach => exact need fun _ => detachOwn_revises fresh
  | annotations => exact need fun _ => void (Revises.updateAnnotations fresh)
  | eviction => exact need fun _ => void (Revises.setEvictionPolicy fresh)

theorem mutate_turns : TakesFreshTurns (mutate env id body) := by
  refine TakesFreshTurns.block (fun _ => .bind .ret fun _ _ => .ret) fun t a => ?_
  simp only [alone_bind, alone_check, alone_pure, bind_assoc, pure_bind]
  exact Within.bind Within.attempt fun _ =>
    liftRegistry_within (Within.bind (apply_revises fun _ _ h => h) fun _ => Within.getAsset)

theorem expireCandidate_turns : TakesFreshTurns (expireCandidate query candidate) := by
  refine TakesFreshTurns.block (fun _ => .ite .ret .ret) fun t a => ?_
  split
  · simp only [alone_pure, pure_bind]
    exact liftRegistry_within Within.pure
  · simp only [alone_pure, pure_bind]
    exact liftRegistry_within (Within.bind (Revises.expireAsset fun _ _ h => h) fun _ =>
      Within.pure)

theorem expireCandidates_turns : ∀ {candidates : List Candidate} {applied skipped : Nat},
    TakesFreshTurns (expireCandidates query candidates applied skipped)
  | [], _, _ => .ret _
  | _ :: _, _, _ => by
    refine Prog.Turns.bind expireCandidate_turns fun expired => ?_
    split
    · exact expireCandidates_turns
    · exact expireCandidates_turns

/-- Every job but a sweep gives the assets that it changes new revisions. -/
theorem Job.turns {job : Job} (h : ∀ policy, job ≠ .sweep policy) :
    TakesFreshTurns (job.prog env) := by
  cases job with
  | call op plain =>
    exact Prog.Turns.trans (TakesFreshTurns.registry fun t => Revises.call (fun _ _ h => h) plain)
      fun _ => .ret _
  | write => exact Prog.Turns.trans TakesFreshTurns.writeObject fun _ => .ret _
  | mutate => exact Prog.Turns.trans mutate_turns fun _ => .ret _
  | bulk =>
    refine Prog.Turns.trans (.bind (.ret _) fun _ => .bind (.ret _) fun _ => ?_) fun _ => .ret _
    exact expireCandidates_turns
  | sweep policy => exact (h policy rfl).elim

end Actions

/-! ### Reads and actions -/

variable {ι : Type}

abbrev Threads (ι : Type) := Machine.Config Cmd Err GuardState ι Unit

/-- The next thing that thread `i` does is to execute `q`. -/
def About {β : Type} (c : Threads ι) (i : ι) (q : GuardProg β) : Prop :=
  ∃ k : Except Err β → GuardProg Unit, c.2 i = q.andThen k

/-- The calls that read assets. -/
inductive Op.Reads : Op → Prop
  | getAsset {id : Text} : Reads (.getAsset id)
  | resolveAlias {space name : Text} : Reads (.resolveAlias space name)
  | listAssets : Reads .listAssets
  | queryAssets {query : AssetQuery} : Reads (.queryAssets query)

/-- The records in a reply. -/
def Reply.records : Reply → List Asset
  | .asset a => [a]
  | .assets as => as
  | _ => []

/-- Thread `i` is about to read the asset, or to mutate it and to return what it has become. -/
inductive Shows (env : Env) (c : Threads ι) (i : ι) : Asset → Prop
  | read {op : Op} {reply : Reply} {g : GuardState} {a : Asset} (reads : op.Reads)
      (next : c.2 i = (registry (op.run env)).andThen hangUp)
      (returns : alone (registry (op.run env)) c.1 = .ok reply g) (mem : a ∈ reply.records) :
        Shows env c i a
  | mutate {id : Text} {body : Mutation} {g : GuardState} {a : Asset}
      (next : c.2 i = (mutate env id body).andThen hangUp)
      (returns : alone (AssetStore.mutate env id body) c.1 = .ok a g) : Shows env c i a

/-- Thread `i` is about to apply an action of the console to an asset under this revision. -/
inductive Applies (env : Env) (c : Threads ι) (i : ι) : Text → Time → Prop
  | mutate {id : Text} {body : Mutation} {g : GuardState} {a : Asset}
      (next : About c i (mutate env id body))
      (returns : alone (AssetStore.mutate env id body) c.1 = .ok a g) :
      Applies env c i id body.expectedUpdatedAt
  | bulk {query : AssetQuery} {candidate : Candidate} {g : GuardState}
      (next : About c i (expireCandidate query candidate))
      (returns : alone (expireCandidate query candidate) c.1 = .ok true g) :
      Applies env c i candidate.assetId candidate.expectedUpdatedAt

/-- A sweep is between the two blocks of its purge of the asset. -/
def Purging (c : Threads ι) (id : Text) : Prop :=
  ∃ i now, ∃ action : Action, About c i (purgeLocked now action) ∧ action.asset.assetId = id

/-- An action is applied to an asset that has the revision. -/
theorem Applies.stored {env : Env} {c : Threads ι} {i : ι} {id : Text} {t : Time}
    (h : Applies env c i id t) : ∃ a, c.1.reg.assets.get id = some a ∧ a.updatedAt = t := by
  cases h with
  | mutate next returns =>
    obtain ⟨a, last, g1, get, hbody, -⟩ := withAssetLock_eq_ok.mp returns
    simp only [alone_bind, alone_check, alone_pure, bind_eq_ok, attempt_eq_ok, raiseIf_eq_ok,
      not_not] at hbody
    obtain ⟨_, _, ⟨hsame, -⟩, -⟩ := hbody
    exact ⟨a, get, hsame.symm⟩
  | bulk next returns =>
    obtain ⟨a, last, g1, get, hbody, hlast⟩ := withAssetLock_eq_ok.mp returns
    refine ⟨a, get, ?_⟩
    by_contra hne
    rw [if_pos (.inl hne)] at hbody
    obtain ⟨rfl, -⟩ := pure_eq_ok.mp hbody
    obtain ⟨s, hs, -⟩ := liftRegistry_eq_ok.mp hlast
    simp at hs

/-! ### The instants of sweeps -/

/-- A sweep that is under way: its instant, the assets that it may still look at, and the one
between whose blocks it is. -/
structure SweepView where
  now : Time
  future : Text → Prop
  fenced : Option Text

/-- What a thread has left to do. -/
inductive Remains (env : Env) : Option SweepView → GuardProg Unit → Prop
  | plain {p : GuardProg Unit} (turns : TakesFreshTurns p) : Remains env none p
  | start {policy : SweepPolicy} : Remains env none ((Job.sweep policy).prog env)
  | sweeping {v : SweepView} {policy : SweepPolicy} {p : GuardProg SweepReport}
      (at_instant : SweepAt .double policy v.now v.future v.fenced p) :
        Remains env (some v) (p.andThen hangUp)

/-- How a turn that begins at one reading of the clock and ends at another changes the view of its
thread, and the revisions that it may give. -/
inductive ViewMoves (t t' : Time) :
    Option SweepView → Option SweepView → (Text → Time → Prop) → Prop
  | plain : ViewMoves t t' none none fun _ now => t ≤ now
  | begins {v : SweepView} (now : v.now = t) (unfenced : v.fenced = none) (later : t < t') :
      ViewMoves t t' none (some v) fun _ _ => False
  | goes {v v' : SweepView} (now : v'.now = v.now) (shrinks : ∀ id, v'.future id → v.future id)
      (fences : ∀ id, v'.fenced = some id → v.future id ∨ v.fenced = some id) :
      ViewMoves t t' (some v) (some v') fun id now =>
        now = v.now ∧ (v.future id ∨ v.fenced = some id) ∧ ¬v'.future id

/-- One turn of a thread. -/
theorem Remains.turn {env : Env} {view : Option SweepView} {p : GuardProg Unit}
    (h : Remains env view p)
    {g : GuardState} (clock : StrictMono g.clock) (filed : g.reg.Filed)
    (begun : ∀ v, view = some v → v.now < g.clock 0) :
    ∃ view' ok, Remains env view' (p.turn lockBlocks Cmd.sem g).1 ∧
      ViewMoves (g.clock 0) ((p.turn lockBlocks Cmd.sem g).2.clock 0) view view' ok ∧
      Revised ok g.session (p.turn lockBlocks Cmd.sem g).2.session := by
  cases h with
  | plain turns =>
    obtain ⟨hfresh, hrest⟩ := Prog.Turns.turn turns g
    have hrun : Running (g.clock 0 - 1) g.session := ⟨clock, Int.sub_one_lt_of_le le_rfl, filed⟩
    have hrevised := hfresh _ hrun
    refine ⟨none, _, .plain hrest, .plain, hrevised.later, hrevised.filed, fun id a get => ?_⟩
    refine (hrevised.revision id a get).imp_right fun hnew => ⟨?_, hnew.2⟩
    exact Int.le_of_sub_one_lt hnew.1
  | @start policy =>
    have first : SweepAt .double policy (g.clock 0) (fun _ => True) none _ := .listing
    refine ⟨some ⟨g.clock 0, fun _ => True, none⟩, _, .sweeping first,
      .begins rfl rfl (clock Nat.zero_lt_one), ?_⟩
    exact .of_assets (t := g.clock 0 - 1) ⟨clock, Int.sub_one_lt_of_le le_rfl, filed⟩
      (Frame.tick g.session) rfl
  | @sweeping v policy p at_instant =>
    obtain ⟨p', g', future', fenced', hturn, hsweep⟩ :=
      SweepAt.turn at_instant (k := hangUp) (fun _ => ⟨_, rfl⟩) ⟨clock, begun v rfl, filed⟩
    rw [hturn]
    exact ⟨some ⟨v.now, future', fenced'⟩, _, .sweeping hsweep.remains,
      .goes rfl hsweep.shrinks hsweep.fences, hsweep.revised⟩

/-! ### Runs -/

section Runs

variable [DecidableEq ι] {env : Env} {c : Threads ι} {views : ι → Option SweepView}
  {i j : ι} {a : Asset}

/-- The turn of a thread. -/
abbrev turnOf (i : ι) (c : Threads ι) : Threads ι := takeTurn lockBlocks Cmd.sem i c

/-- What holds in every run: no revision is in the future, sweeps have instants of their own, and an
asset that has the instant of a sweep as its revision is not looked at again by that sweep. -/
structure Consistent (env : Env) (c : Threads ι) (views : ι → Option SweepView) : Prop where
  clock : StrictMono c.1.clock
  filed : c.1.reg.Filed
  past : ∀ id a, c.1.reg.assets.get id = some a → a.updatedAt < c.1.clock 0
  thread : ∀ i, Remains env (views i) (c.2 i)
  begun : ∀ i v, views i = some v → v.now < c.1.clock 0
  distinct : ∀ i j v w, views i = some v → views j = some w → v.now = w.now → i = j
  unmarked : ∀ i v id a, views i = some v → c.1.reg.assets.get id = some a → a.updatedAt = v.now →
    ¬v.future id

/-- The revision of the record is used up: no sweep will give it to the asset again, and while the
asset has it, it is the record. -/
structure Kept (a : Asset) (c : Threads ι) (views : ι → Option SweepView) : Prop where
  past : a.updatedAt < c.1.clock 0
  settled : ∀ i v, views i = some v → v.now = a.updatedAt →
    ¬v.future a.assetId ∧ v.fenced ≠ some a.assetId
  same : ∀ a', c.1.reg.assets.get a.assetId = some a' → a'.updatedAt = a.updatedAt →
    a'.unread = a.unread

/-- What a turn does to the view of each thread: the sweep is where it was, or it has begun at this
reading of the clock, or it has gone on. -/
theorem ViewMoves.cases {t t' : Time} {view' : Option SweepView} {ok : Text → Time → Prop}
    (h : ViewMoves t t' (views i) view' ok) {v' : SweepView}
    (hv' : Function.update views i view' j = some v') :
    (i = j ∧ views i = none ∧ v'.now = t ∧ t < t' ∧ v'.fenced = none) ∨
      ∃ v, views j = some v ∧ v'.now = v.now ∧ (∀ id, v'.future id → v.future id) ∧
        ∀ id, v'.fenced = some id → v.future id ∨ v.fenced = some id := by
  by_cases hij : j = i
  · subst hij
    rw [Function.update_self] at hv'
    subst hv'
    generalize hview : views j = view at h
    cases h with
    | begins now unfenced later => exact .inl ⟨rfl, rfl, now, later, unfenced⟩
    | goes now shrinks fences => exact .inr ⟨_, rfl, now, shrinks, fences⟩
  · rw [Function.update_of_ne hij] at hv'
    exact .inr ⟨v', hv', rfl, fun _ h => h, fun _ h => .inr h⟩

omit [DecidableEq ι] in
/-- A new revision is not one that was given before: it is no earlier than the turn, or it is the
instant of the sweep, which had still to look at the asset and has not any more. -/
theorem ViewMoves.stamped {t t' now : Time} {view' : Option SweepView}
    {ok : Text → Time → Prop} {id : Text}
    (h : ViewMoves t t' (views i) view' ok) (hok : ok id now) :
    (views i = none ∧ view' = none ∧ t ≤ now) ∨
      ∃ v v', views i = some v ∧ view' = some v' ∧ now = v.now ∧
      (v.future id ∨ v.fenced = some id) ∧ ¬v'.future id := by
  generalize hview : views i = view at h
  cases h with
  | plain => exact .inl ⟨rfl, rfl, hok⟩
  | begins => exact hok.elim
  | goes => exact .inr ⟨_, _, rfl, rfl, hok⟩

section Turn

variable {t' : Time} {view' : Option SweepView} {ok : Text → Time → Prop} {g' : GuardState}
  (h : Consistent env c views) (hmoves : ViewMoves (c.1.clock 0) t' (views i) view' ok)
  (hrevised : Revised ok c.1.session g'.session)
include h hmoves

/-- A sweep that begins has an instant of its own: all others are in the past. -/
theorem Consistent.turn_distinct {k : ι} {v w : SweepView}
    (hv : Function.update views i view' j = some v)
    (hw : Function.update views i view' k = some w) (hsame : v.now = w.now) : j = k := by
  rcases hmoves.cases hv with ⟨rfl, -, hnow, -, -⟩ | ⟨v0, hv0, hnow, -, -⟩
  · rcases hmoves.cases hw with ⟨rfl, -⟩ | ⟨w0, hw0, hnow', -, -⟩
    · rfl
    · have hpast := h.begun k w0 hw0
      rw [← hnow', ← hsame, hnow] at hpast
      exact (lt_irrefl _ hpast).elim
  · rcases hmoves.cases hw with ⟨rfl, -, hnow', -, -⟩ | ⟨w0, hw0, hnow', -, -⟩
    · have hpast := h.begun j v0 hv0
      rw [← hnow, hsame, hnow'] at hpast
      exact (lt_irrefl _ hpast).elim
    · exact h.distinct j k v0 w0 hv0 hw0 (hnow.symm.trans (hsame.trans hnow'))

include hrevised

theorem Consistent.turn_unmarked {v : SweepView} {id : Text}
    (hv : Function.update views i view' j = some v) (get : g'.reg.assets.get id = some a)
    (hnow : a.updatedAt = v.now) : ¬v.future id := by
  rcases hrevised.revision id a get with ⟨b, hb, hsame⟩ | ⟨hok, -⟩
  · -- the asset has kept its revision
    rw [Asset.updatedAt_of_unread hsame] at hnow
    rcases hmoves.cases hv with ⟨-, -, hbegun, -, -⟩ | ⟨v0, hv0, hinstant, hshrinks, -⟩
    · have hpast := h.past id b hb
      rw [hnow, hbegun] at hpast
      exact (lt_irrefl _ hpast).elim
    · exact fun hfuture => h.unmarked j v0 id b hv0 hb (hnow.trans hinstant) (hshrinks id hfuture)
  · -- the asset has got a new revision
    rcases hmoves.stamped hok with ⟨hnone, rfl, hle⟩ | ⟨w, w', hw, rfl, hstamp, -, hdone⟩
    · rcases hmoves.cases hv with ⟨rfl, -⟩ | ⟨v0, hv0, hinstant, -, -⟩
      · simp at hv
      · have hpast := h.begun j v0 hv0
        rw [← hinstant, ← hnow] at hpast
        exact (not_lt.mpr hle hpast).elim
    · rcases hmoves.cases hv with ⟨rfl, hnone, -⟩ | ⟨v0, hv0, hinstant, -, -⟩
      · rw [hw] at hnone
        cases hnone
      · obtain rfl := h.distinct i j w v0 hw hv0 (hstamp.symm.trans (hnow.trans hinstant))
        rw [Function.update_self] at hv
        obtain rfl := Option.some.inj hv
        exact hdone

omit h [DecidableEq ι] in
/-- A revision that is used up is not given again. -/
theorem Kept.turn_same (hkept : Kept a c views) {a' : Asset}
    (get : g'.reg.assets.get a.assetId = some a')
    (hnow : a'.updatedAt = a.updatedAt) : a'.unread = a.unread := by
  rcases hrevised.revision a.assetId a' get with ⟨b, hb, hsame⟩ | ⟨hok, -⟩
  · rw [Asset.updatedAt_of_unread hsame] at hnow
    exact hsame.trans (hkept.same b hb hnow)
  · rcases hmoves.stamped hok with ⟨-, -, hle⟩ | ⟨w, -, hw, -, hstamp, hlooked, -⟩
    · rw [hnow] at hle
      exact (not_lt.mpr hle hkept.past).elim
    · obtain ⟨hfuture, hfenced⟩ := hkept.settled i w hw (hstamp.symm.trans hnow)
      exact (hlooked.elim hfuture hfenced).elim

omit h hrevised in
theorem Kept.turn_settled (hkept : Kept a c views) {v : SweepView}
    (hv : Function.update views i view' j = some v) (hnow : v.now = a.updatedAt) :
    ¬v.future a.assetId ∧ v.fenced ≠ some a.assetId := by
  rcases hmoves.cases hv with ⟨-, -, hbegun, -, -⟩ | ⟨v0, hv0, hinstant, hshrinks, hfences⟩
  · have hpast := hkept.past
    rw [← hnow, hbegun] at hpast
    exact (lt_irrefl _ hpast).elim
  · obtain ⟨hfuture, hfenced⟩ := hkept.settled j v0 hv0 (hinstant.symm.trans hnow)
    exact ⟨fun hf => hfuture (hshrinks _ hf), fun hf => (hfences _ hf).elim hfuture hfenced⟩

end Turn

/-- A turn keeps a run consistent, and a record kept. -/
theorem Consistent.turn (h : Consistent env c views) (i : ι) :
    ∃ views', Consistent env (turnOf i c) views' ∧ ∀ a, Kept a c views →
      Kept a (turnOf i c) views' := by
  obtain ⟨view', ok, hremains, hmoves, hrevised⟩ := (h.thread i).turn h.clock h.filed (h.begun i)
  have hclock : c.1.clock 0 ≤ (turnOf i c).1.clock 0 := hrevised.later.clock_zero_le h.clock
  refine ⟨Function.update views i view',
    { clock := hrevised.later.strictMono h.clock
      filed := hrevised.filed
      past := fun id a get => ?_
      thread := fun j => ?_
      begun := fun j v hv => ?_
      distinct := fun j k v w => h.turn_distinct hmoves
      unmarked := fun j v id a => h.turn_unmarked hmoves hrevised }, fun a hkept =>
    { past := hkept.past.trans_le hclock
      settled := fun j v => hkept.turn_settled hmoves
      same := fun a' => hkept.turn_same hmoves hrevised }⟩
  · rcases hrevised.revision id a get with ⟨b, hb, hsame⟩ | ⟨-, hpast⟩
    · rw [Asset.updatedAt_of_unread hsame]
      exact (h.past id b hb).trans_le hclock
    · exact hpast
  · by_cases hij : j = i
    · subst hij
      simp only [turnOf, takeTurn, Function.update_self]
      exact hremains
    · simp only [turnOf, takeTurn, Function.update_of_ne hij]
      exact h.thread j
  · rcases hmoves.cases hv with ⟨-, -, hnow, hlater, -⟩ | ⟨v0, hv0, hnow, -, -⟩
    · exact hnow ▸ hlater
    · exact hnow ▸ (h.begun j v0 hv0).trans_le hclock

/-- The turns of the threads in the order of a schedule. -/
abbrev turnsOf (schedule : List ι) (c : Threads ι) : Threads ι :=
  takeTurns lockBlocks Cmd.sem schedule c

/-- The threads before their first turns. -/
def openFor (env : Env) (jobs : ι → Job) (g : GuardState) : Threads ι :=
  (g, fun i => (jobs i).prog env)

omit [DecidableEq ι] in
theorem consistent_open {jobs : ι → Job} {g : GuardState} {grace : Int} (clock : StrictMono g.clock)
    (initial : g.reg = Registry.initial grace) :
    Consistent env (openFor env jobs g) fun _ => none where
  clock := clock
  filed := by
    intro id a get
    rw [show (openFor env jobs g).1.reg = Registry.initial grace from initial] at get
    cases get
  past := by
    intro id a get
    rw [show (openFor env jobs g).1.reg = Registry.initial grace from initial] at get
    cases get
  thread := by
    intro i
    change Remains env none ((jobs i).prog env)
    by_cases h : ∃ policy, jobs i = .sweep policy
    · obtain ⟨policy, hjob⟩ := h
      rw [hjob]
      exact .start
    · exact .plain (Job.turns fun policy hjob => h ⟨policy, hjob⟩)
  begun := fun _ _ h => by cases h
  distinct := fun _ _ _ _ h => by cases h
  unmarked := fun _ _ _ _ h => by cases h

theorem turnsOf_concat {before between : List ι} : turnsOf (before ++ i :: between) c =
    turnsOf between (turnOf i (turnsOf before c)) := by
  simp [takeTurns]

/-- A thread that executes its last atomic program stops, in the state that the program leaves. -/
theorem turnOf_last {α : Type} {q : GuardProg α} (next : c.2 i = q.andThen hangUp)
    (atomic : q.Atomic lockBlocks Cmd.sem) :
    (turnOf i c).1 = final (alone q c.1) ∧ (turnOf i c).2 i = .ret (.ok ()) := by
  have hturn := atomic hangUp c.1
  rw [← next] at hturn
  simp only [turnOf, takeTurn, hturn, Function.update_self, resultOf_snd]
  exact ⟨rfl, rfl⟩

omit [DecidableEq ι] in
/-- What a read returns is what is stored. -/
theorem Op.Reads.stored {op : Op} (h : op.Reads) {s s' : Session} {reply : Reply}
    (run : op.run env s = .ok reply s') (mem : a ∈ reply.records) :
    s'.reg = s.reg ∧ ∃ id, s.reg.assets.get id = some a := by
  cases h with
  | @getAsset id =>
    simp only [Op.run, bind_eq_ok, getAsset_eq_ok, pure_eq_ok] at run
    obtain ⟨b, _, ⟨get, rfl⟩, rfl, rfl⟩ := run
    exact ⟨rfl, id, List.mem_singleton.mp mem ▸ get⟩
  | resolveAlias =>
    simp only [Op.run, AssetStore.resolveAlias, bind_eq_ok, getBinding_eq_ok, attempt_eq_ok,
      getAsset_eq_ok, utcnow_eq_ok, pure_eq_ok] at run
    obtain ⟨b, _, ⟨_, _, ⟨_, _, _, -, -, -, -, rfl⟩, _, _, ⟨-, rfl⟩, _, _, ⟨get, rfl⟩, _, _,
      ⟨-, rfl⟩, _, _,
      ⟨-, rfl⟩, _, _, ⟨-, rfl⟩, rfl, rfl⟩, rfl, rfl⟩ := run
    exact ⟨rfl, _, List.mem_singleton.mp mem ▸ get⟩
  | listAssets =>
    simp only [Op.run, AssetStore.listAssets, bind_eq_ok, tables_eq_ok, pure_eq_ok] at run
    obtain ⟨_, _, ⟨_, _, ⟨rfl, rfl⟩, rfl, rfl⟩, rfl, rfl⟩ := run
    exact ⟨rfl, (mem_listed.mp mem).1⟩
  | queryAssets =>
    simp only [Op.run, AssetStore.queryAssets, bind_eq_ok, attempt_eq_ok, tables_eq_ok,
      pure_eq_ok] at run
    obtain ⟨_, _, ⟨_, _, ⟨-, rfl⟩, _, _, ⟨rfl, rfl⟩, rfl, rfl⟩, rfl, rfl⟩ := run
    have hvalue := (List.mem_filter.mp (List.mem_of_mem_take mem)).1
    exact ⟨rfl, Dict.mem_values.mp (List.mem_mergeSort.mp hvalue)⟩

theorem Shows.stored (h : Shows env c i a) (filed : c.1.reg.Filed)
    (filed' : (turnOf i c).1.reg.Filed) :
    (turnOf i c).1.reg.assets.get a.assetId = some a ∧ (turnOf i c).2 i = .ret (.ok ()) := by
  cases h with
  | read reads next returns mem =>
    obtain ⟨hstate, hlast⟩ := turnOf_last next registry_atomic
    rw [returns, final_ok] at hstate
    refine ⟨?_, hlast⟩
    rw [alone_registry] at returns
    obtain ⟨s, hrun, rfl⟩ := liftRegistry_eq_ok.mp returns
    obtain ⟨hreg, id, get⟩ := reads.stored hrun mem
    rw [hstate]
    change s.reg.assets.get a.assetId = some a
    rw [hreg]
    exact (filed id a get).symm ▸ get
  | mutate next returns =>
    obtain ⟨hstate, hlast⟩ := turnOf_last next mutate_atomic
    rw [returns, final_ok] at hstate
    refine ⟨?_, hlast⟩
    obtain ⟨b, last, g1, -, hbody, hdone⟩ := withAssetLock_eq_ok.mp returns
    simp only [alone_bind, alone_check, alone_pure, bind_eq_ok, attempt_eq_ok, pure_eq_ok] at hbody
    obtain ⟨_, _, -, rfl, rfl⟩ := hbody
    obtain ⟨s, hrun, rfl⟩ := liftRegistry_eq_ok.mp hdone
    obtain ⟨_, s1, -, hget⟩ := bind_eq_ok.mp hrun
    obtain ⟨get, rfl⟩ := getAsset_eq_ok.mp hget
    rw [hstate] at filed' ⊢
    exact (filed' _ a get).symm ▸ get

/-- The record that a read shows is kept, unless a sweep is between the blocks of a purge. -/
theorem Consistent.shows (h : Consistent env c views) {views' : ι → Option SweepView}
    (h' : Consistent env (turnOf i c) views') (shows : Shows env c i a)
    (settled : ¬Purging c a.assetId) :
    Kept a (turnOf i c) views' := by
  obtain ⟨get, hlast⟩ := shows.stored h.filed h'.filed
  refine ⟨h'.past _ a get, fun j v hv hnow =>
    ⟨h'.unmarked j v _ a hv get hnow.symm, fun hfenced => ?_⟩, fun a' get' _ => ?_⟩
  · have hremains := h'.thread j
    rw [hv] at hremains
    generalize hp : (turnOf i c).2 j = p at hremains
    obtain ⟨now, future, fenced⟩ := v
    cases hremains with
    | sweeping at_instant =>
      simp only at hfenced at_instant
      subst hfenced
      generalize hid : some a.assetId = key at at_instant
      cases at_instant with
      | @fenced action rest report once =>
        by_cases hij : j = i
        · subst hij
          rw [hlast] at hp
          cases hp
        · simp only [turnOf, takeTurn, Function.update_of_ne hij] at hp
          rw [Prog.andThen_assoc] at hp
          exact settled ⟨j, now, action, ⟨_, hp⟩, (Option.some.inj hid).symm⟩
      | _ => cases hid
  · obtain rfl := Option.some.inj (get.symm.trans get')
    rfl

/-- An action of the console that is applied under the revision that a read has shown is applied to
the record that the read has shown, up to reads of its payload, unless the read was made between the
two blocks of a purge of the asset. -/
theorem revision_of_turns {jobs : ι → Job} {g : GuardState} {grace : Int}
    (clock : StrictMono g.clock)
    (initial : g.reg = Registry.initial grace) {before between : List ι}
    (shows : Shows env (turnsOf before (openFor env jobs g)) i a)
    (settled : ¬Purging (turnsOf before (openFor env jobs g)) a.assetId)
    (applies : Applies env (turnsOf (before ++ i :: between) (openFor env jobs g)) j a.assetId
      a.updatedAt) :
    ∃ a', (turnsOf (before ++ i :: between) (openFor env jobs g)).1.reg.assets.get a.assetId =
      some a' ∧
      a'.unread = a.unread := by
  obtain ⟨views, hbefore⟩ : ∃ views, Consistent env (turnsOf before (openFor env jobs g)) views :=
    takeTurns_induction (I := fun c => ∃ views, Consistent env c views)
      ⟨_, consistent_open clock initial⟩ fun i c ⟨views, h⟩ =>
        (h.turn i).imp fun _ h' => h'.1
  obtain ⟨views', hread, -⟩ := hbefore.turn i
  rw [turnsOf_concat] at applies ⊢
  obtain ⟨views'', -, hkept⟩ : ∃ views'', Consistent env
      (turnsOf between (turnOf i (turnsOf before (openFor env jobs g)))) views'' ∧
        Kept a (turnsOf between (turnOf i (turnsOf before (openFor env jobs g)))) views'' :=
    takeTurns_induction (I := fun c => ∃ views'', Consistent env c views'' ∧ Kept a c views'')
      ⟨_, hread, hbefore.shows hread shows settled⟩ fun i c ⟨views, h, hkept⟩ =>
        (h.turn i).imp fun _ h' => ⟨h'.1, h'.2 a hkept⟩
  obtain ⟨a', get, hsame⟩ := applies.stored
  exact ⟨a', get, hkept.same a' get hsame⟩

/-! A reservation that is read and then changed under the revision that was read. -/

/-- A deleted asset with a payload. -/
def fencedAsset : Asset :=
  { assetId := [], space := [], partitionId := [], storageKey := [], state := .deleted,
    createdAt := 0
    updatedAt := 0, ownerServiceId := [], aliases := ∅ }

/-- The program begins a block that removes the bytes of a deleted asset. -/
def erasesFirst : GuardProg Unit → Bool
  | .call (.enterLock _) k =>
    match k (.ok fencedAsset) with
    | .call (.deleteObject _) _ => true
    | _ => false
  | _ => false

omit [DecidableEq ι] in
theorem not_purging {id : Text} (h : ∀ i, erasesFirst (c.2 i) = false) : ¬Purging c id := by
  rintro ⟨i, now, action, ⟨k, hk⟩, -⟩
  have := h i
  rw [hk] at this
  cases this

def inspectedJobs : Fin 3 → Job
  | 0 => .call reserveCall (by simp [reserveCall])
  | 1 => .call (.getAsset "a1".toList) (by simp)
  | 2 => .mutate "a1".toList
    { expectedUpdatedAt := 0, action := .eviction, evictionPolicy := some .inherit }

/-- A clock that ticks once a second. -/
def seconds : GuardState := ⟨.initial 0, .empty, .empty, fun n => n * 1000000⟩

theorem seconds_strictMono : StrictMono seconds.clock :=
  strictMono_nat_of_lt_succ fun n => by
    change (n : Int) * 1000000 < ((n + 1 : Nat) : Int) * 1000000
    omega

theorem revision_of_turns_inspected :
    ∃ a a', Shows plainEnv (turnsOf [0] (openFor plainEnv inspectedJobs seconds)) 1 a ∧
      Applies plainEnv (turnsOf [0, 1] (openFor plainEnv inspectedJobs seconds)) 2 a.assetId
        a.updatedAt ∧
      (turnsOf [0, 1] (openFor plainEnv inspectedJobs seconds)).1.reg.assets.get a.assetId =
        some a' ∧
      a'.unread = a.unread := by
  have hread : returns (fun reply _ => reply.records.any fun a => a.assetId == "a1".toList &&
      a.updatedAt == 0)
      (alone (registry (Op.run plainEnv (.getAsset "a1".toList)))
        (turnsOf [0] (openFor plainEnv inspectedJobs seconds)).1) = true := by decide +kernel
  have happly : returns (fun _ _ => true) (alone (mutate plainEnv "a1".toList
      { expectedUpdatedAt := 0, action := .eviction, evictionPolicy := some .inherit })
        (turnsOf [0, 1] (openFor plainEnv inspectedJobs seconds)).1) = true := by decide +kernel
  obtain ⟨reply, g, hreturns, hreply⟩ := exists_ok_of_returns hread
  obtain ⟨b, g', hmutate, -⟩ := exists_ok_of_returns happly
  obtain ⟨a, hmem, ha⟩ := List.any_eq_true.mp hreply
  simp only [Bool.and_eq_true, beq_iff_eq] at ha
  have hshows : Shows plainEnv (turnsOf [0] (openFor plainEnv inspectedJobs seconds)) 1 a :=
    .read .getAsset rfl hreturns hmem
  have happlies :
      Applies plainEnv (turnsOf ([0] ++ 1 :: []) (openFor plainEnv inspectedJobs seconds)) 2
      a.assetId a.updatedAt := by
    rw [ha.1, ha.2]
    exact .mutate ⟨hangUp, rfl⟩ hmutate
  obtain ⟨a', get, hsame⟩ := revision_of_turns seconds_strictMono rfl hshows
    (not_purging (by decide +kernel)) happlies
  exact ⟨a, a', hshows, happlies, get, hsame⟩

/-! A reservation that lapses and is read between the two blocks of its purge. -/

def purgedJobs : Fin 4 → Job
  | 0 => .call reserveCall (by simp [reserveCall])
  | 1 => .sweep { SweepPolicy.standard with pendingSeconds := 1, pending_pos := by decide }
  | 2 => .call (.getAsset "a1".toList) (by simp)
  | 3 => .mutate "a1".toList
    { expectedUpdatedAt := 3000000, action := .detach, aliasName := some "m/x".toList }

/-- The detachment is applied to a record whose payload is gone, under the revision of a record
whose payload is not. -/
theorem revision_reused : StrictMono seconds.clock ∧
    ∃ a a', Shows plainEnv (turnsOf [0, 1, 1, 1, 1] (openFor plainEnv purgedJobs seconds)) 2 a ∧
      Applies plainEnv (turnsOf [0, 1, 1, 1, 1, 2, 1]
        (openFor plainEnv purgedJobs seconds)) 3 a.assetId
        a.updatedAt ∧
      (turnsOf [0, 1, 1, 1, 1, 2, 1] (openFor plainEnv purgedJobs seconds)).1.reg.assets.get
        a.assetId =
        some a' ∧ a.payloadDeletedAt = none ∧ a'.payloadDeletedAt = some 3000000 ∧
          a'.unread ≠ a.unread := by
  have hread : returns (fun reply _ => reply.records.any fun a =>
      a.assetId == "a1".toList && (a.updatedAt == 3000000 && a.payloadDeletedAt == none))
      (alone (registry (Op.run plainEnv (.getAsset "a1".toList)))
        (turnsOf [0, 1, 1, 1, 1] (openFor plainEnv purgedJobs seconds)).1) =
          true := by decide +kernel
  have happly : returns (fun _ _ => true) (alone (mutate plainEnv "a1".toList
      { expectedUpdatedAt := 3000000, action := .detach, aliasName := some "m/x".toList })
        (turnsOf [0, 1, 1, 1, 1, 2, 1] (openFor plainEnv purgedJobs seconds)).1) =
          true := by decide +kernel
  have hstored :
      ((turnsOf [0, 1, 1, 1, 1, 2, 1] (openFor plainEnv purgedJobs seconds)).1.reg.assets.get
      "a1".toList).any (fun a => a.payloadDeletedAt == some 3000000) = true := by decide +kernel
  obtain ⟨reply, g, hreturns, hreply⟩ := exists_ok_of_returns hread
  obtain ⟨b, g', hmutate, -⟩ := exists_ok_of_returns happly
  obtain ⟨a', get, ha'⟩ := (Option.any_eq_true _ _).mp hstored
  obtain ⟨a, hmem, ha⟩ := List.any_eq_true.mp hreply
  simp only [Bool.and_eq_true, beq_iff_eq] at ha ha'
  obtain ⟨hid, hrevision, hunpurged⟩ := ha
  refine ⟨seconds_strictMono, a, a', .read .getAsset rfl hreturns hmem, ?_, hid ▸ get, hunpurged,
    ha', fun hsame => ?_⟩
  · rw [hid, hrevision]
    exact .mutate ⟨hangUp, rfl⟩ hmutate
  · have hpayload : a'.unread.payloadDeletedAt = a.unread.payloadDeletedAt := by rw [hsame]
    have hgone : a'.payloadDeletedAt = a.payloadDeletedAt := hpayload
    rw [ha', hunpurged] at hgone
    cases hgone

end Runs

end AssetStore
