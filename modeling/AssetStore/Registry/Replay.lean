import AssetStore.Registry.States

/-! The audit log determines the registry: as long as no detach overflows, replaying the events in
order gives the binding table and the states of the assets, and every lifecycle event names the
state that it starts from. -/

namespace AssetStore

open Lib Relation

/-! ### Replay -/

/-- What the audit events say: each key with its asset and its mutability, and the states. -/
structure Replay where
  bindings : Dict Text (Option Text × Bool) := .empty
  states : Dict Text AssetState := .empty

def AssetState.ofValue (s : Text) : Option AssetState :=
  [AssetState.pending, .available, .expired, .deleted].find? fun st => st.value = s

@[simp] theorem AssetState.ofValue_value (st : AssetState) :
    AssetState.ofValue st.value = some st := by
  cases st <;> decide

/-- The asset is pending if it is new. -/
def Replay.introduce (p : Replay) (id : Text) : Dict Text AssetState :=
  match p.states.get id with
  | none => p.states.set id .pending
  | some _ => p.states

/-- The key is bound to the asset that the event names. -/
def Replay.bindKey (p : Replay) (e : AuditEvent) : Replay :=
  match e.after.lookup "asset_id".toList, e.after.lookup "mutable".toList with
  | some id, some mutable =>
    { bindings := p.bindings.set e.target (some id, decide (mutable = "true".toList))
      states := p.introduce id }
  | _, _ => p

/-- The key keeps its mutability and gets another asset, or none. -/
def Replay.rebindKey (p : Replay) (key : Text) (id : Option Text) : Replay :=
  match p.bindings.get key with
  | some (_, mutable) => { p with bindings := p.bindings.set key (id, mutable) }
  | none => p

/-- The asset gets the state that the event names. -/
def Replay.setState (p : Replay) (e : AuditEvent) : Replay :=
  match (e.after.lookup "state".toList).bind AssetState.ofValue with
  | some st => { p with states := p.states.set e.target st }
  | none => p

/-- One event. -/
def Replay.step (p : Replay) (e : AuditEvent) : Replay :=
  match e.action with
  | .aliasCreate | .aliasAttach => p.bindKey e
  | .aliasDetach => { p with bindings := p.bindings.erase e.target }
  | .aliasDetachMutable => p.rebindKey e.target none
  | .aliasRebind => p.rebindKey e.target (e.after.lookup "asset_id".toList)
  | .assetCommit | .assetExpire | .assetDelete | .gcMark | .payloadDelete | .ttlSet => p.setState e
  | .capabilityIssue | .uploadReserve | .annotationsUpdate | .evictionPolicySet | .quotaSet => p

/-- The events in order, from the empty state. -/
def replay (events : List AuditEvent) : Replay := events.foldl Replay.step {}

/-- The events that record a lifecycle transition. -/
def AuditAction.Lifecycle : AuditAction → Prop
  | .assetCommit | .assetExpire | .assetDelete | .gcMark | .payloadDelete | .ttlSet => True
  | _ => False

/-! ### The simulation -/

/-- The replayed state is that of the tables. -/
structure Replay.Mirrors (p : Replay) (aliases : Dict Text AliasBinding)
    (assets : Dict Text Asset) :
    Prop where
  bindings : ∀ key, p.bindings.get key = (aliases.get key).map fun b => (b.assetId, b.mutable)
  states : ∀ id, p.states.get id = (assets.get id).map fun a => a.state

/-- Every lifecycle event names the state that the events before it give. -/
def Continuous (events : List AuditEvent) : Prop :=
  ∀ before e after, events = before ++ e :: after → e.action.Lifecycle →
    ∃ st, (replay before).states.get e.target = some st ∧
      e.before.lookup "state".toList = some st.value

theorem Continuous.concat {events : List AuditEvent} {e : AuditEvent} (h : Continuous events)
    (last : e.action.Lifecycle → ∃ st, (replay events).states.get e.target = some st ∧
      e.before.lookup "state".toList = some st.value) : Continuous (events ++ [e]) := by
  intro before e' after hsplit hlife
  rcases List.eq_nil_or_concat after with rfl | ⟨init, x, rfl⟩
  · obtain ⟨rfl, hlast⟩ := List.append_inj' hsplit rfl
    obtain rfl := List.singleton_inj.mp hlast
    exact last hlife
  · rw [List.concat_eq_append, ← List.cons_append, ← List.append_assoc] at hsplit
    exact h before e' init (List.append_inj' hsplit rfl).1 hlife

theorem Continuous.append {events new : List AuditEvent} (h : Continuous events)
    (quiet : ∀ e ∈ new, ¬e.action.Lifecycle) : Continuous (events ++ new) := by
  induction new using List.reverseRecOn with
  | nil => simpa using h
  | append_singleton init e ih =>
    rw [← List.append_assoc]
    refine (ih fun e he => quiet e (by simp [he])).concat fun hlife => ?_
    exact (quiet e (by simp) hlife).elim

theorem replay_concat (events : List AuditEvent) (e : AuditEvent) :
    replay (events ++ [e]) = (replay events).step e := by
  simp [replay]

theorem replay_append (events new : List AuditEvent) :
    replay (events ++ new) = new.foldl Replay.step (replay events) := by
  simp [replay]

section Events

variable {p : Replay} {key id caller : Text} {ts : Time} {e : AuditEvent}

theorem Replay.step_neutral (h : e.action.Neutral) : p.step e = p := by
  unfold Replay.step
  split <;> simp_all [AuditAction.Neutral]

theorem AuditAction.Neutral.not_lifecycle {action : AuditAction} (h : action.Neutral) :
    ¬action.Lifecycle := by
  cases action <;> simp_all [AuditAction.Neutral, AuditAction.Lifecycle]

theorem Replay.step_lifecycle (h : e.action.Lifecycle) : p.step e = p.setState e := by
  unfold Replay.step
  split <;> simp_all [AuditAction.Lifecycle]

theorem Replay.step_bind {mutable : Bool} {action : AuditAction}
    (h : action = .aliasCreate ∨ action = .aliasAttach) :
    p.step (bindEvent action key id mutable caller ts) =
      { bindings := p.bindings.set key (some id, mutable), states := p.introduce id } := by
  have hid : (bindEvent action key id mutable caller ts).after.lookup "asset_id".toList =
      some id := by
    simp [bindEvent, auditEvent]
  have hmutable : (bindEvent action key id mutable caller ts).after.lookup "mutable".toList =
      some (showLower mutable) := by
    simp [bindEvent, auditEvent, mapping]
  have hbool : decide (showLower mutable = "true".toList) = mutable := by cases mutable <;> decide
  have hstep : p.step (bindEvent action key id mutable caller ts) =
      p.bindKey (bindEvent action key id mutable caller ts) := by
    rcases h with rfl | rfl <;> rfl
  rw [hstep, Replay.bindKey, hid, hmutable]
  simp only [hbool]
  rfl

theorem Replay.get_introduce (p : Replay) (id other : Text) :
    (p.introduce id).get other =
      if other = id then some ((p.states.get id).getD .pending) else p.states.get other := by
  unfold Replay.introduce
  cases hid : p.states.get id with
  | none => simp [Dict.get_set]
  | some st =>
    by_cases heq : other = id
    · simp [heq, hid]
    · simp [heq]

end Events

namespace Replay.Mirrors

variable {p : Replay} {aliases : Dict Text AliasBinding} {assets : Dict Text Asset} {key id : Text}
  {a a' : Asset} {b b' : AliasBinding}

theorem empty : Mirrors {} .empty .empty := ⟨fun _ => rfl, fun _ => rfl⟩

/-- A record is rewritten in the same state. -/
theorem put (h : p.Mirrors aliases assets) (get : assets.get id = some a)
    (same : a'.state = a.state) :
    p.Mirrors aliases (assets.set id a') where
  bindings := h.bindings
  states other := by
    rw [h.states, Dict.get_set]
    split
    · rename_i heq
      simp [heq, get, same]
    · rfl

/-- The states are the same when a stored asset is introduced. -/
theorem get_introduce (h : p.Mirrors aliases assets) (get : assets.get id = some a) (other : Text) :
    (p.introduce id).get other = p.states.get other := by
  rw [Replay.get_introduce]
  split
  · rename_i heq
    have hstate : p.states.get id = some a.state := by rw [h.states, get, Option.map_some]
    rw [heq, hstate]
    rfl
  · rfl

/-- A key is set. -/
theorem set_binding (h : p.Mirrors aliases assets) (b : AliasBinding) :
    Mirrors { p with bindings := p.bindings.set key (b.assetId, b.mutable) } (aliases.set key b)
      assets where
  bindings k := by
    rw [Dict.get_set, Dict.get_set]
    split
    · rfl
    · exact h.bindings k
  states := h.states

theorem erase_binding (h : p.Mirrors aliases assets) :
    Mirrors { p with bindings := p.bindings.erase key } (aliases.erase key) assets where
  bindings k := by
    rw [Dict.get_erase, Dict.get_erase]
    split
    · rfl
    · exact h.bindings k
  states := h.states

theorem bindKey (h : p.Mirrors aliases assets) (get : assets.get id = some a)
    (bound : b.assetId = some id) :
    Mirrors { bindings := p.bindings.set key (some id, b.mutable), states := p.introduce id }
      (aliases.set key b) assets where
  bindings := by
    rw [← bound]
    exact (h.set_binding b).bindings
  states other := by rw [h.get_introduce get, h.states]

theorem rebindKey (h : p.Mirrors aliases assets) (get : aliases.get key = some b)
    (same : b'.mutable = b.mutable) {target : Option Text} (bound : b'.assetId = target) :
    (p.rebindKey key target).Mirrors (aliases.set key b') assets := by
  have hkey : p.bindings.get key = some (b.assetId, b.mutable) := by
    rw [h.bindings, get, Option.map_some]
  unfold Replay.rebindKey
  rw [hkey]
  simp only [← same, ← bound]
  exact h.set_binding b'

theorem setState (h : p.Mirrors aliases assets) {e : AuditEvent} (target : e.target = id)
    (after : e.after.lookup "state".toList = some a'.state.value) :
    (p.setState e).Mirrors aliases (assets.set id a') := by
  unfold Replay.setState
  rw [after, Option.bind_some, AssetState.ofValue_value, target]
  refine ⟨h.bindings, fun other => ?_⟩
  rw [Dict.get_set, Dict.get_set]
  split
  · rfl
  · exact h.states other

/-- The bindings of a reservation, one event after the other. -/
theorem foldl_bind {new : List (Text × AliasBinding)} {events : List AuditEvent}
    (logged : List.Forall₂ (fun kb e => ∃ caller ts,
      e = bindEvent .aliasCreate kb.1 id kb.2.mutable caller ts) new events)
    (bound : ∀ kb ∈ new, kb.2.assetId = some id) (stored : assets.get id = some a)
    (h : p.Mirrors aliases assets) :
    (events.foldl Replay.step p).Mirrors (bindAll aliases new) assets := by
  induction logged generalizing p aliases with
  | nil => exact h
  | @cons kb e new events hevent _ ih =>
    obtain ⟨caller, ts, rfl⟩ := hevent
    simp only [List.foldl_cons, step_bind (.inl rfl)]
    exact ih (fun kb' hmem => bound kb' (List.mem_cons_of_mem _ hmem))
      (h.bindKey stored (bound kb List.mem_cons_self))

/-- A new asset with at least one binding. -/
theorem reserve {new : List (Text × AliasBinding)} {events : List AuditEvent}
    (logged : List.Forall₂ (fun kb e => ∃ caller ts,
      e = bindEvent .aliasCreate kb.1 id kb.2.mutable caller ts) new events)
    (bound : ∀ kb ∈ new, kb.2.assetId = some id) (named : new ≠ []) (fresh : assets.get id = none)
    (pending : a.state = .pending) (h : p.Mirrors aliases assets) :
    (events.foldl Replay.step p).Mirrors (bindAll aliases new) (assets.set id a) := by
  cases logged with
  | nil => exact (named rfl).elim
  | @cons kb e new events hevent hrest =>
    obtain ⟨caller, ts, rfl⟩ := hevent
    simp only [List.foldl_cons, step_bind (.inl rfl)]
    -- the first event introduces the asset, and the others find it
    change Mirrors _ (bindAll (aliases.set kb.1 kb.2) new) _
    refine foldl_bind hrest (fun kb' hmem => bound kb' (List.mem_cons_of_mem _ hmem))
      (Dict.get_set_self _ _ _) ⟨?_, fun other => ?_⟩
    · rw [← bound kb List.mem_cons_self]
      exact (h.set_binding kb.2).bindings
    · rw [Replay.get_introduce, h.states, h.states, fresh, Dict.get_set]
      split
      · rw [Option.map_some, pending]
        rfl
      · rfl

end Replay.Mirrors

section Runs

variable {env : Env} {clock : Nat → Time} {op : Op} {r r' : Registry} {id : Text} {a a' : Asset}

theorem Transition.lifecycle {action : AuditAction} (h : Transition env clock id a op action a') :
    action.Lifecycle := by
  cases h <;> trivial

/-- The log of the registry replays to its tables. -/
structure Registry.Logged (r : Registry) : Prop where
  indexed : Indexed r.aliases r.assets
  mirrors : (replay r.auditEvents).Mirrors r.aliases r.assets
  continuous : Continuous r.auditEvents

theorem Registry.Logged.mirrors_change (h : r.Logged) (names : op.NamesAlias)
    (dated : ¬op.Overflows clock r.aliasGrace)
    (hc : Change env clock r op r') : (replay r'.auditEvents).Mirrors r'.aliases r'.assets := by
  have hm := h.mirrors
  cases hc with
  | forget => exact hm
  | charge => exact hm
  | log neutral =>
    simp only [replay_concat, Replay.step_neutral neutral]
    exact hm
  | note get => exact hm.put get rfl
  | reserve fresh asset _ named bindings _ logged =>
    simp only [replay_append]
    refine hm.reserve logged (fun kb hkb => ?_) (named names) fresh asset.state
    obtain ⟨_, hnew⟩ := bindings kb hkb
    exact hnew.bound
  | attach get _ binding _ =>
    simp only [replay_concat, Replay.step_bind (.inr rfl), ← binding.mutable]
    exact (hm.bindKey get binding.bound).put get rfl
  | detach _ _ _ _ _ asset _ =>
    simp only [replay_concat]
    exact hm.erase_binding.put asset rfl
  | drop _ _ _ _ _ _ overflows => exact (dated overflows).elim
  | unbind _ get own _ _ asset =>
    obtain rfl := h.indexed.key_eq get own
    simp only [replay_concat]
    refine Replay.Mirrors.put (hm.rebindKey get ?_ ?_) asset rfl
    · rfl
    · rfl
  | @rebind _ _ _ _ _ id _ _ _ _ _ _ get own _ _ asset _ _ _ =>
    obtain rfl := h.indexed.key_eq get own
    simp only [replay_concat]
    refine Replay.Mirrors.put (hm.rebindKey get ?_ ?_) asset rfl
    · rfl
    · simp [auditEvent]
  | move _ step records =>
    simp only [replay_concat]
    rw [Replay.step_lifecycle (records.action ▸ step.lifecycle)]
    exact hm.setState records.target records.after

theorem Registry.Logged.continuous_change (h : r.Logged) (hc : Change env clock r op r') :
    Continuous r'.auditEvents := by
  have hlog := h.continuous
  cases hc with
  | forget => exact hlog
  | charge => exact hlog
  | log neutral => exact hlog.concat fun hlife => (neutral.not_lifecycle hlife).elim
  | note => exact hlog
  | reserve _ _ _ _ _ _ logged =>
    refine hlog.append fun e he => ?_
    obtain ⟨kb, -, caller, ts, rfl⟩ := Forall₂.exists_left logged e he
    exact id
  | attach => exact hlog.concat False.elim
  | detach => exact hlog.concat False.elim
  | drop => exact hlog
  | unbind => exact hlog.concat False.elim
  | rebind => exact hlog.concat False.elim
  | move get _ records =>
    refine hlog.concat fun _ => ⟨_, ?_, records.before⟩
    rw [records.target, h.mirrors.states, get, Option.map_some]

theorem Registry.Logged.change (h : r.Logged) (names : op.NamesAlias)
    (dated : ¬op.Overflows clock r.aliasGrace) (hc : Change env clock r op r') : r'.Logged :=
  ⟨h.indexed.change hc, h.mirrors_change names dated hc, h.continuous_change hc⟩

variable {grace : Int} {calls : List (Op × (Nat → Time))}

theorem Runs.logged (h : Runs env (Registry.initial grace) calls r)
    (names : ∀ c ∈ calls, c.1.NamesAlias) (dated : ∀ c ∈ calls, ¬c.1.Overflows c.2 grace) :
    r.Logged := by
  have hall : r.Logged ∧ r.aliasGrace = grace := by
    refine h.of_change (P := fun r => r.Logged ∧ r.aliasGrace = grace) ⟨⟨.empty, .empty, ?_⟩, rfl⟩
      fun hmem ⟨hr, hgrace⟩ hc => ⟨hr.change (names _ hmem) (hgrace ▸ dated _ hmem) hc, ?_⟩
    · intro before e after hsplit
      simp [Registry.initial] at hsplit
    · exact hc.aliasGrace.trans hgrace
  exact hall.1

/-- As long as no detach overflows, replaying the audit log gives the bindings and the states, and
every lifecycle event names the state just before it. -/
theorem replay_of_runs (h : Runs env (Registry.initial grace) calls r)
    (names : ∀ c ∈ calls, c.1.NamesAlias) (dated : ∀ c ∈ calls, ¬c.1.Overflows c.2 grace) :
    (∀ key, (replay r.auditEvents).bindings.get key =
        (r.aliases.get key).map fun b => (b.assetId, b.mutable)) ∧
      (∀ id, (replay r.auditEvents).states.get id = (r.assets.get id).map fun a => a.state) ∧
      ∀ before e after, r.auditEvents = before ++ e :: after → e.action.Lifecycle →
        ∃ st, (replay before).states.get e.target = some st ∧
          e.before.lookup "state".toList = some st.value := by
  have hlogged := h.logged names dated
  exact ⟨hlogged.mirrors.bindings, hlogged.mirrors.states, hlogged.continuous⟩

theorem replay_uploaded :
    (replay uploaded.auditEvents).states.get "a1".toList = some .available ∧
      (replay uploaded.auditEvents).bindings.get "cache/m/x".toList =
        some (some "a1".toList, false) := by
  obtain ⟨hbindings, hstates, -⟩ := replay_of_runs uploaded_runs
    (by simp [reserveCall, commitCall, Op.NamesAlias])
    (by simp [reserveCall, commitCall, Op.Overflows])
  rw [hbindings, hstates]
  decide +kernel

/-- A detach overflows after it has dropped the binding, and the log does not say so. -/
theorem replay_dropped : ∃ calls r, Runs plainEnv (.initial maxGrace) calls r ∧
    (∀ c ∈ calls, c.1.NamesAlias) ∧
    (replay r.auditEvents).bindings.get "cache/m/x".toList = some (some "a1".toList, false) ∧
    r.aliases.get "cache/m/x".toList = none := by
  let calls : List (Op × (Nat → Time)) :=
    [(citeCall "a1".toList, fun _ => 0), (withdrawCall, fun _ => 0)]
  have hplays : (playCalls plainEnv (.initial maxGrace) calls).any (fun r =>
      (replay r.auditEvents).bindings.get "cache/m/x".toList == some (some "a1".toList, false) &&
        (r.aliases.get "cache/m/x".toList).isNone) = true := by decide +kernel
  obtain ⟨r, hruns, hend⟩ := exists_runs_of_play hplays
  obtain ⟨hlog, hnone⟩ := Bool.and_eq_true_iff.mp hend
  refine ⟨calls, r, hruns, ?_, beq_iff_eq.mp hlog, Option.isNone_iff_eq_none.mp hnone⟩
  simp [calls, citeCall, withdrawCall, Op.NamesAlias]

end Runs

end AssetStore
