import AssetStore.Lifecycle.Spec
import AssetStore.Registry.Index

/-! Immutable aliases as citations. As long as no `detach_alias` overflows, the binding of an
immutable alias changes only when a `detach_alias` of its key succeeds, and from then on the name is
not given out again before its grace period has elapsed. -/

namespace AssetStore

open Lib Relation

variable {env : Env} {clock : Nat → Time} {op : Op} {r r' : Registry} {key : Text}
  {b : AliasBinding}
  {grace : Int}

/-! ### Bound names -/

/-- One change leaves an immutable binding as it is, unless it is the detach of its key. -/
theorem Change.immutable (hc : Change env clock r op r') (hi : Indexed r.aliases r.assets)
    (get : r.aliases.get key = some b) (immutable : b.mutable = false) :
    r'.aliases.get key = some b ∨ ∃ space name caller,
      op = .detachAlias space name caller ∧ aliasKey space name = .ok key := by
  have bound : ∀ {found : Text} {c : AliasBinding}, r.aliases.get found = some c →
      c.mutable = true → key ≠ found := by
    rintro found c hfound hmutable rfl
    obtain rfl : b = c := Option.some.inj (get.symm.trans hfound)
    rw [immutable] at hmutable
    cases hmutable
  cases hc with
  | forget => exact .inl get
  | charge => exact .inl get
  | log => exact .inl get
  | note => exact .inl get
  | reserve _ _ _ _ _ free _ =>
    refine .inl ((Indexed.bindAll_of_not_mem fun hmem => ?_).trans get)
    obtain ⟨kb, hkb, rfl⟩ := List.mem_map.mp hmem
    rw [(free kb hkb).1] at get
    cases get
  | attach _ _ _ free =>
    refine .inl ((Dict.get_set_ne _ _ ?_).trans get)
    rintro rfl
    rw [free.1] at get
    cases get
  | @detach space name caller found key' _ _ _ _ _ _ lookup hget own _ _ _ _
  | @drop space name caller found key' _ _ _ _ lookup hget own _ _ _ _ =>
    obtain rfl := hi.key_eq hget own
    by_cases heq : key = key'
    · subst heq
      exact .inr ⟨space, name, caller, rfl, lookup⟩
    · exact .inl ((Dict.get_erase_ne _ heq).trans get)
  | unbind _ hget own hmutable _ _ =>
    obtain rfl := hi.key_eq hget own
    exact .inl ((Dict.get_set_ne _ _ (bound hget hmutable)).trans get)
  | rebind _ hget own hmutable _ _ _ _ _ =>
    obtain rfl := hi.key_eq hget own
    exact .inl ((Dict.get_set_ne _ _ (bound hget hmutable)).trans get)
  | move => exact .inl get

/-- A call leaves an immutable binding as it is, unless it is a detach of its key that succeeds or
overflows. -/
theorem Op.exec_immutable (hv : r.books.Valid normPart) (hi : Indexed r.aliases r.assets)
    (fresh : op.Fresh r) (dated : ¬op.Overflows clock r.aliasGrace)
    (get : r.aliases.get key = some b) (immutable : b.mutable = false) :
    (op.exec env clock r).aliases.get key = some b ∨ ∃ space name caller s',
      op = .detachAlias space name caller ∧ aliasKey space name = .ok key ∧
        op.run env ⟨r, clock⟩ = .ok .none s' := by
  unfold Op.exec
  cases hrun : op.run env ⟨r, clock⟩ with
  | error e s' =>
    have hsweeps := (Op.raises (s := ⟨r, clock⟩) hv hi.bindsStored hrun).resolve_right
      fun hover => dated hover.2.1
    rw [final_error, hsweeps.reg]
    exact .inl get
  | ok reply s' =>
    by_cases hdetach : ∃ space name caller,
        op = .detachAlias space name caller ∧ aliasKey space name = .ok key
    · obtain ⟨space, name, caller, rfl, hkey⟩ := hdetach
      obtain ⟨_, _, -, hreply⟩ := bind_eq_ok.mp hrun
      obtain ⟨rfl, -⟩ := pure_eq_ok.mp hreply
      exact .inr ⟨space, name, caller, s', rfl, hkey, rfl⟩
    · have hchanges : Changes env clock op r s'.reg := Op.changes (s := ⟨r, clock⟩) fresh hrun
      rw [final_ok]
      generalize s'.reg = r' at hchanges
      have hboth : Indexed r'.aliases r'.assets ∧ r'.aliases.get key = some b := by
        induction hchanges with
        | refl => exact ⟨hi, get⟩
        | tail _ hstep ih =>
          exact ⟨ih.1.change hstep, (hstep.immutable ih.1 ih.2 immutable).resolve_right hdetach⟩
      exact .inl hboth.2

/-! ### Buried names -/

/-- After a detach at `since`: the bindings of the key are old enough, and it stays buried until the
grace period has elapsed. -/
structure Graced (key : Text) (grace since now : Time) (r : Registry) : Prop where
  period : r.aliasGrace = grace
  created : ∀ b, r.aliases.get key = some b → since + grace ≤ b.createdAt
  buried : since + grace ≤ now ∨ ∃ deadline, r.tombstones.get key = some deadline ∧
    since + grace ≤ deadline

variable {since now : Time}

theorem Graced.later {now' : Time} (h : Graced key grace since now r) (le : now ≤ now') :
    Graced key grace since now' r := by
  refine ⟨h.period, h.created, ?_⟩
  rcases h.buried with hle | htomb
  · exact .inl (hle.trans le)
  · exact .inr htomb

/-- A name without a tombstone is out of its grace period. -/
theorem Graced.elapsed (h : Graced key grace since now r) (free : r.tombstones.get key = none) :
    since + grace ≤ now := by
  rcases h.buried with hle | ⟨deadline, htomb, -⟩
  · exact hle
  · rw [free] at htomb
    cases htomb

theorem Reads.constant {t : Time} (h : Reads (fun _ => now) t) : t = now := by
  obtain ⟨_, rfl⟩ := h
  rfl

theorem Graced.change (h : Graced key grace since now r) (hnow : since ≤ now)
    (hi : Indexed r.aliases r.assets) (hc : Change env (fun _ => now) r op r') :
    Graced key grace since now r' := by
  cases hc with
  | forget elapsed =>
    refine ⟨h.period, h.created, ?_⟩
    rcases h.buried with hle | ⟨deadline, htomb, hle⟩
    · exact .inl hle
    · rcases elapsed key with hsame | ⟨-, deadline', now', htomb', hreads, hle'⟩
      · exact .inr ⟨deadline, hsame.trans htomb, hle⟩
      · obtain rfl : deadline = deadline' := Option.some.inj (htomb.symm.trans htomb')
        exact .inl (hreads.constant ▸ hle.trans hle')
  | charge => exact ⟨h.period, h.created, h.buried⟩
  | log => exact ⟨h.period, h.created, h.buried⟩
  | note => exact ⟨h.period, h.created, h.buried⟩
  | @reserve _ _ _ new _ _ _ _ _ bindings free _ =>
    refine ⟨h.period, fun b hb => ?_, h.buried⟩
    by_cases hnew : key ∈ new.map Prod.fst
    · obtain ⟨kb, hkb, rfl, hget⟩ := Indexed.bindAll_of_mem (d := r.aliases) hnew
      obtain rfl : kb.2 = b := Option.some.inj (hget.symm.trans hb)
      obtain ⟨_, hbinding⟩ := bindings kb hkb
      rw [hbinding.created.constant]
      exact h.elapsed (free kb hkb).2
    · exact h.created b (Indexed.bindAll_of_not_mem hnew ▸ hb)
  | attach _ _ binding free =>
    refine ⟨h.period, fun c hc => ?_, h.buried⟩
    change (r.aliases.set _ _).get key = some c at hc
    rw [Dict.get_set] at hc
    split at hc
    · rename_i heq
      obtain rfl := Option.some.inj hc
      rw [binding.created.constant]
      exact h.elapsed (heq ▸ free.2)
    · exact h.created c hc
  | @detach _ _ _ _ key' _ _ _ _ now' _ _ _ _ _ _ _ reads =>
    obtain rfl := reads.constant
    refine ⟨h.period, fun c hc => ?_, ?_⟩
    · change (r.aliases.erase _).get key = some c at hc
      rw [Dict.get_erase] at hc
      split at hc
      · cases hc
      · exact h.created c hc
    · change since + grace ≤ now' ∨ ∃ deadline, (r.buried key' now').get key = some deadline ∧ _
      unfold Registry.buried
      split
      · by_cases heq : key = key'
        · subst heq
          refine .inr ⟨now' + r.aliasGrace, Dict.get_set_self _ _ _, ?_⟩
          rw [h.period]
          exact Int.add_le_add_right hnow grace
        · rw [Dict.get_set_ne _ _ heq]
          exact h.buried
      · exact h.buried
  | drop =>
    refine ⟨h.period, fun c hc => ?_, h.buried⟩
    change (r.aliases.erase _).get key = some c at hc
    rw [Dict.get_erase] at hc
    split at hc
    · cases hc
    · exact h.created c hc
  | @unbind _ _ _ _ _ _ _ old _ _ _ _ get own _ _ _ =>
    refine ⟨h.period, fun c hc => ?_, h.buried⟩
    obtain rfl := hi.key_eq get own
    change (r.aliases.set _ _).get key = some c at hc
    rw [Dict.get_set] at hc
    split at hc
    · rename_i heq
      obtain rfl := Option.some.inj hc
      exact h.created old (heq ▸ get)
    · exact h.created c hc
  | @rebind _ _ _ _ _ _ _ old _ _ _ _ get own _ _ _ _ _ _ =>
    refine ⟨h.period, fun c hc => ?_, h.buried⟩
    obtain rfl := hi.key_eq get own
    change (r.aliases.set _ _).get key = some c at hc
    rw [Dict.get_set] at hc
    split at hc
    · rename_i heq
      obtain rfl := Option.some.inj hc
      exact h.created old (heq ▸ get)
    · exact h.created c hc
  | move => exact ⟨h.period, h.created, h.buried⟩

/-! ### Runs -/

/-- The calls, each at the instant that its clock reads throughout. -/
def timed (calls : List (Op × Time)) : List (Op × (Nat → Time)) :=
  calls.map fun c => (c.1, fun _ => c.2)

theorem Runs.cons (fresh : op.Fresh r) {calls : List (Op × (Nat → Time))}
    (h : Runs env (op.exec env clock r) calls r') : Runs env r ((op, clock) :: calls) r' := by
  have hfirst : Runs env r ([] ++ [(op, clock)]) (op.exec env clock r) := .snoc .nil fresh
  exact hfirst.append h

theorem Runs.of_nil (h : Runs env r [] r') : r' = r := by
  generalize hnil : [] = calls at h
  cases h with
  | nil => rfl
  | snoc => simp at hnil

theorem Runs.of_cons {calls : List (Op × (Nat → Time))} (h : Runs env r ((op, clock) :: calls) r') :
    op.Fresh r ∧ Runs env (op.exec env clock r) calls r' := by
  generalize hall : (op, clock) :: calls = all at h
  induction h generalizing calls with
  | nil => cases hall
  | @snoc _ before _ _ hbefore fresh ih =>
    cases before with
    | nil =>
      obtain ⟨hhead, rfl⟩ := List.cons_eq_cons.mp hall
      obtain ⟨rfl, rfl⟩ := Prod.mk.inj hhead
      obtain rfl := hbefore.of_nil
      exact ⟨fresh, .nil⟩
    | cons c before =>
      obtain ⟨rfl, rfl⟩ := List.cons_eq_cons.mp hall
      obtain ⟨hfresh, hrest⟩ := ih rfl
      exact ⟨hfresh, hrest.snoc fresh⟩

variable {calls : List (Op × (Nat → Time))}

/-- As long as nothing overflows, an immutable binding stays as it is up to the first detach of its
key that succeeds. -/
theorem Runs.immutable (before : Runs env (Registry.initial grace) calls r)
    (get : r.aliases.get key = some b) (immutable : b.mutable = false) {more : List (Op × Time)}
    (dated : ∀ c ∈ more, ¬c.1.Overflows (fun _ => c.2) grace) (h : Runs env r (timed more) r') :
    r'.aliases.get key = some b ∨ ∃ mid space name caller t rest r1 s',
      more = mid ++ (.detachAlias space name caller, t) :: rest ∧ Runs env r (timed mid) r1 ∧
        aliasKey space name = .ok key ∧
        (Op.detachAlias space name caller).run env ⟨r1, fun _ => t⟩ = .ok .none s' ∧
        Runs env s'.reg (timed rest) r' := by
  induction more generalizing r calls with
  | nil =>
    obtain rfl := h.of_nil
    exact .inl get
  | cons call more ih =>
    obtain ⟨op, t⟩ := call
    obtain ⟨fresh, hrest⟩ := h.of_cons
    have hnow : ¬op.Overflows (fun _ => t) r.aliasGrace := by
      rw [before.aliasGrace]
      exact dated (op, t) List.mem_cons_self
    rcases Op.exec_immutable before.sound.1 before.indexed fresh hnow get immutable with
      hkept | ⟨space, name, caller, s', rfl, hkey, hrun⟩
    · rcases ih (before.snoc fresh) hkept (fun c hc => dated c (List.mem_cons_of_mem _ hc))
        hrest with hend | ⟨mid, space, name, caller, t', rest, r1, s', rfl, hmid,
        hkey, hrun, hafter⟩
      · exact .inl hend
      · exact .inr ⟨(op, t) :: mid, space, name, caller, t', rest, r1, s', rfl,
          hmid.cons fresh, hkey, hrun, hafter⟩
    · rw [Op.exec, hrun] at hrest
      exact .inr ⟨[], space, name, caller, t, more, r, s', rfl, .nil, hkey, hrun, hrest⟩

/-- A detach that succeeds buries the name. -/
theorem Graced.of_detach {space name caller : Text} {reply : Reply} {s' : Session}
    (before : Runs env (Registry.initial grace) calls r) (nonneg : 0 ≤ grace)
    (hkey : aliasKey space name = .ok key)
    (h : (Op.detachAlias space name caller).run env ⟨r, fun _ => now⟩ = .ok reply s') :
    Graced key grace now now s'.reg := by
  obtain ⟨_, h⟩ := replied h
  obtain ⟨found, key', b, t, r1, hfound, hget, hown, hreads, haliases, htombs, hperiod,
      hdetach, hmark⟩ :=
    @detachAlias_steps env _ _ _ _ _ _ h
  obtain rfl : found = key := by simpa [hkey] using hfound.symm
  obtain rfl := before.indexed.key_eq hget hown
  obtain rfl : t = now := hreads.constant
  have hgrace : r1.aliasGrace = grace := hperiod.trans before.aliasGrace
  have hstart : Graced key' grace t t r1 := by
    refine ⟨hgrace, fun c hc => ?_, ?_⟩
    · rw [haliases, Dict.get_erase_self] at hc
      cases hc
    · rw [htombs, Registry.buried]
      split
      · refine .inr ⟨t + grace, ?_, le_refl _⟩
        rw [Dict.get_set_self]
        exact congrArg (fun g => some (t + g)) before.aliasGrace
      · rename_i hzero
        have : grace = 0 := by
          have hle : ¬0 < grace := before.aliasGrace ▸ hzero
          omega
        exact .inl (by rw [this, Int.add_zero])
  have hboth : Indexed s'.reg.aliases s'.reg.assets ∧ Graced key' grace t t s'.reg := by
    have hindexed := before.indexed.change hdetach
    generalize s'.reg = r' at hmark
    induction hmark with
    | refl => exact ⟨hindexed, hstart⟩
    | tail _ hstep ih => exact ⟨ih.1.change hstep, ih.2.change (le_refl _) ih.1 hstep⟩
  exact hboth.2

/-- The name stays buried in the calls that follow. -/
theorem Graced.runs (before : Runs env (Registry.initial grace) calls r) (hnow : since ≤ now)
    (hg : Graced key grace since now r) {more : List (Op × Time)}
    (sorted : (now :: more.map Prod.snd).Pairwise (· ≤ ·)) (h : Runs env r (timed more) r') :
    ∀ b, r'.aliases.get key = some b → since + grace ≤ b.createdAt := by
  induction more generalizing r calls now with
  | nil =>
    obtain rfl := h.of_nil
    exact hg.created
  | cons call more ih =>
    obtain ⟨op, t⟩ := call
    obtain ⟨fresh, hrest⟩ := h.of_cons
    obtain ⟨hle, hsorted⟩ := List.pairwise_cons.mp sorted
    have ht : now ≤ t := hle t (by simp)
    have hchanges : Changes env (fun _ => t) op r (op.exec env (fun _ => t) r) :=
      Op.exec_changes before.sound.1 before.indexed fresh
    have hafter : Graced key grace since t (op.exec env (fun _ => t) r) := by
      have hindexed := before.indexed
      generalize op.exec env (fun _ => t) r = r1 at hchanges
      have hboth : Indexed r1.aliases r1.assets ∧ Graced key grace since t r1 := by
        induction hchanges with
        | refl => exact ⟨hindexed, hg.later ht⟩
        | tail _ hstep ih => exact ⟨ih.1.change hstep, ih.2.change (hnow.trans ht) ih.1 hstep⟩
      exact hboth.2
    exact ih (before.snoc fresh) (hnow.trans ht) hafter hsorted hrest

/-! ### Maintenance -/

/-- The calls that expire, delete or restore assets. -/
def Op.Maintains : Op → Prop
  | .expireAsset .. | .deleteAsset .. | .lifecycleUpdate .. | .setAssetTtl .. => True
  | _ => False

theorem Op.Maintains.aliases (h : op.Maintains)
    (before : Runs env (Registry.initial grace) calls r) :
    (op.exec env clock r).aliases = r.aliases := by
  have fresh : op.Fresh r := by cases op <;> trivial
  have hchanges : Changes env clock op r (op.exec env clock r) :=
    Op.exec_changes before.sound.1 before.indexed fresh
  generalize op.exec env clock r = r' at hchanges
  induction hchanges with
  | refl => rfl
  | tail _ hstep ih =>
    rw [← ih]
    cases hstep <;> first | rfl | exact h.elim

theorem lifecycleUpdate_aliases {a : Asset} {state : AssetState} {reason : Text} {purge : Bool} :
    Keeps (fun r => r.aliases) (lifecycleUpdate a state now reason purge) := by
  have hset : ∀ {f : Registry → Registry}, (∀ r, (f r).aliases = r.aliases) →
      Keeps (fun r => r.aliases) (updateTables f) := fun hf => Within.updateTables fun s => hf s.reg
  refine Within.bind Within.getAsset fun _ => Within.bind Within.attempt fun _ =>
    Within.bind Within.attempt fun _ => Within.bind ?_ fun _ =>
      Within.bind (hset fun _ => rfl) fun _ =>
      Within.bind (Within.bind Within.utcnow fun _ => hset fun _ => rfl) fun _ => Within.pure
  exact Within.ite (Within.bind Within.partitionQuota fun _ =>
    Within.bind (hset fun _ => rfl) fun _ =>
    Within.bind Within.bucketQuota fun _ => hset fun _ => rfl) Within.pure

/-- The guard's alias table is the same. -/
def SameAliases (g g' : GuardState) : Prop := g'.reg.aliases = g.reg.aliases

instance : Closed SameAliases where
  refl _ := rfl
  trans h h' := h'.trans h

theorem liftRegistry_aliases {α : Type} {m : RegM α} (h : Keeps (fun r => r.aliases) m) :
    Within SameAliases (liftRegistry m) := by
  intro g
  have hm := h ⟨g.reg, g.clock⟩
  unfold liftRegistry
  cases hrun : m ⟨g.reg, g.clock⟩ with
  | ok a s =>
    rw [hrun] at hm
    exact hm
  | error e s =>
    rw [hrun] at hm
    exact hm

theorem SweepCmd.aliases {arith : Arithmetic} {policy : SweepPolicy} {β : Type} {c : Cmd β}
    (h : SweepCmd arith policy now β c) :
    Within SameAliases (Cmd.sem β c) := by
  have update : ∀ {a : Asset} {state : AssetState} {reason : Text} {purge : Bool},
      Within SameAliases (liftRegistry do
        let _ ← lifecycleUpdate a state now reason purge
        return true) := liftRegistry_aliases
          (Within.bind lifecycleUpdate_aliases fun _ => Within.pure)
  cases h with
  | read keeps => exact liftRegistry_aliases fun s => congrArg Registry.aliases (keeps s)
  | enter => exact liftRegistry_aliases Within.getAsset
  | quit => exact Within.pure
  | erase => exact fun _ => rfl
  | skip => exact liftRegistry_aliases Within.pure
  | expire => exact update
  | retire => exact update
  | purge => exact update

theorem runSweep_aliases (arith : Arithmetic) (policy : SweepPolicy) (dryRun : Bool)
    (given : Option Time) (g : GuardState) :
    (final (alone (runSweep arith policy dryRun given) g)).reg.aliases = g.reg.aliases := by
  have hall : (runSweep arith policy dryRun given).All _ _ := runSweep_all
  exact (hall.mono fun β c ⟨_, _, hc⟩ => hc.aliases).run_within g

/-- As long as no detach overflows, an immutable alias that is bound to another asset later was
detached in between, and whatever it was bound to since then was bound after the grace period;
maintenance never touches a name. -/
theorem citations_of_runs {first : List (Op × Time)} (nonneg : 0 ≤ grace)
    (before : Runs env (Registry.initial grace) (timed first) r) :
    (∀ second r' key a a' b b', ((first ++ second).map Prod.snd).Pairwise (· ≤ ·) →
      (∀ c ∈ second, ¬c.1.Overflows (fun _ => c.2) grace) → Runs env r (timed second) r' →
      r.aliases.get key = some b → b.mutable = false → b.assetId = some a →
      r'.aliases.get key = some b' → b'.assetId = some a' → a ≠ a' →
      ∃ mid space name caller t rest r1 s',
        second = mid ++ (.detachAlias space name caller, t) :: rest ∧ Runs env r (timed mid) r1 ∧
        aliasKey space name = .ok key ∧
        (Op.detachAlias space name caller).run env ⟨r1, fun _ => t⟩ = .ok .none s' ∧
        Runs env s'.reg (timed rest) r' ∧
        ∀ done r2 c, done <+: rest → Runs env s'.reg (timed done) r2 →
          r2.aliases.get key = some c → t + grace ≤ c.createdAt) ∧
      (∀ (op : Op) (clock : Nat → Time), op.Maintains → (op.exec env clock r).aliases = r.aliases) ∧
      ∀ policy dryRun given (g : GuardState), g.reg = r →
        (final (alone (runSweep .double policy dryRun given) g)).reg.aliases = r.aliases := by
  refine ⟨?_, fun op clock hop => hop.aliases before, ?_⟩
  · intro second r' key a a' b b' sorted dated h get immutable hid get' hid' hne
    rcases before.immutable get immutable dated h with
      hsame | ⟨mid, space, name, caller, t, rest, r1, s', rfl, hmid, hkey, hrun, hrest⟩
    · obtain rfl : b = b' := Option.some.inj (hsame.symm.trans get')
      exact (hne (Option.some.inj (hid.symm.trans hid'))).elim
    · refine ⟨mid, space, name, caller, t, rest, r1, s', rfl, hmid, hkey, hrun, hrest, ?_⟩
      intro done r2 c hdone hruns hc
      have hbefore := before.append hmid
      have hgraced := Graced.of_detach hbefore nonneg hkey hrun
      have hreg : (Op.detachAlias space name caller).exec env (fun _ => t) r1 = s'.reg := by
        simp [Op.exec, hrun]
      have hafter : Runs env (Registry.initial grace) _
          ((Op.detachAlias space name caller).exec env (fun _ => t) r1) := hbefore.snoc trivial
      rw [hreg] at hafter
      have hsorted : (t :: done.map Prod.snd).Pairwise (· ≤ ·) := by
        refine sorted.sublist ?_
        simp only [List.map_append, List.map_cons]
        refine List.Sublist.trans ?_ (List.sublist_append_right _ _)
        refine List.Sublist.trans ?_ (List.sublist_append_right _ _)
        exact List.Sublist.cons_cons t (hdone.sublist.map Prod.snd)
      exact Graced.runs hafter (le_refl t) hgraced hsorted hruns c hc
  · intro policy dryRun given g hg
    rw [runSweep_aliases, hg]

/-- The asset is cited by an immutable alias. -/
def Registry.cites (r : Registry) (id : Text) : Bool :=
  (r.aliases.get "cache/m/x".toList).any fun b => b.assetId == some id && !b.mutable

theorem Registry.exists_of_cites {r : Registry} {id : Text} (h : r.cites id = true) :
    ∃ b, r.aliases.get "cache/m/x".toList = some b ∧ b.assetId = some id ∧ b.mutable = false := by
  obtain ⟨b, hget, hb⟩ := (Option.any_eq_true _ _).mp h
  exact ⟨b, hget, by simpa using hb⟩

/-- A citation is withdrawn and its name given out again after the grace period. -/
theorem citation_reissued : ∃ (r r' : Registry) (b b' : AliasBinding) (t : Time),
    r.aliases.get "cache/m/x".toList = some b ∧ b.assetId = some "a1".toList ∧
      r'.aliases.get "cache/m/x".toList = some b' ∧ b'.assetId = some "a2".toList ∧
      t + 10 ≤ b'.createdAt := by
  let first : List (Op × Time) := [(citeCall "a1".toList, 0)]
  let second : List (Op × Time) := [(withdrawCall, 5), (citeCall "a2".toList, 15)]
  have hplays :
      (playCalls plainEnv (.initial 10) (timed first)).any (fun r => r.cites "a1".toList &&
      (playCalls plainEnv r (timed second)).any (Registry.cites · "a2".toList)) = true := by
    decide +kernel
  obtain ⟨r, before, hstart⟩ := exists_runs_of_play hplays
  obtain ⟨hbound, hplay⟩ := Bool.and_eq_true_iff.mp hstart
  obtain ⟨r', h, hend⟩ := exists_runs_of_play hplay
  obtain ⟨b, hget, hb, himmutable⟩ := Registry.exists_of_cites hbound
  obtain ⟨b', hget', hb', -⟩ := Registry.exists_of_cites hend
  obtain ⟨_, _, _, _, t, rest, _, _, -, -, -, -, hrest, hcreated⟩ :=
    (citations_of_runs (by decide) before).1 second r' _ _ _ b b' (by decide)
      (by simp [second, withdrawCall, citeCall, Op.Overflows, maxTime]) h hget himmutable
        hb hget' hb'
      (by decide)
  exact ⟨r, r', b, b', t, hget, hb, hget', hb',
    hcreated rest r' b' (List.prefix_refl _) hrest hget'⟩

/-- A detach overflows after it has dropped the citation, and the name is given out at once. -/
theorem citation_dropped :
    ∃ (first second : List (Op × Time)) (r r' : Registry) (b b' : AliasBinding),
    Runs plainEnv (.initial maxGrace) (timed first) r ∧ Runs plainEnv r (timed second) r' ∧
      ((first ++ second).map Prod.snd).Pairwise (· ≤ ·) ∧
      r.aliases.get "cache/m/x".toList = some b ∧ b.mutable = false ∧ b.assetId = some "a1".toList ∧
      r'.aliases.get "cache/m/x".toList = some b' ∧ b'.assetId = some "a2".toList ∧
      ¬∃ mid space name caller t rest r1 s',
        second = mid ++ (.detachAlias space name caller, t) :: rest ∧
          Runs plainEnv r (timed mid) r1 ∧ aliasKey space name = .ok "cache/m/x".toList ∧
          (Op.detachAlias space name caller).run plainEnv ⟨r1, fun _ => t⟩ = .ok .none s' := by
  let first : List (Op × Time) := [(citeCall "a1".toList, 0)]
  let second : List (Op × Time) := [(withdrawCall, 0), (citeCall "a2".toList, 0)]
  have hplays : (playCalls plainEnv (.initial maxGrace) (timed first)).any (fun r =>
      (r.cites "a1".toList && raises (fun _ _ => true)
        (withdrawCall.run plainEnv ⟨r, fun _ => 0⟩)) &&
        (playCalls plainEnv r (timed second)).any (Registry.cites · "a2".toList)) = true := by
    decide +kernel
  obtain ⟨r, before, hstart⟩ := exists_runs_of_play hplays
  obtain ⟨hraises, hplay⟩ := Bool.and_eq_true_iff.mp hstart
  obtain ⟨hbound, hraises⟩ := Bool.and_eq_true_iff.mp hraises
  obtain ⟨r', h, hend⟩ := exists_runs_of_play hplay
  obtain ⟨b, hget, hb, himmutable⟩ := Registry.exists_of_cites hbound
  obtain ⟨b', hget', hb', -⟩ := Registry.exists_of_cites hend
  obtain ⟨e, s, herror, -⟩ := exists_error_of_raises hraises
  refine ⟨first, second, r, r', b, b', before, h, by decide, hget, himmutable, hb, hget', hb', ?_⟩
  rintro ⟨mid, space, name, caller, t, rest, r1, s', hsplit, hmid, -, hrun⟩
  -- the only detach is the first call, and it raises
  rcases mid with _ | ⟨call, _ | ⟨call', mid⟩⟩
  · obtain ⟨hcall, -⟩ := List.cons_eq_cons.mp hsplit
    obtain ⟨hop, rfl⟩ := Prod.mk.inj hcall
    obtain rfl := hmid.of_nil
    rw [← hop, herror] at hrun
    cases hrun
  · obtain ⟨-, hrest⟩ := List.cons_eq_cons.mp hsplit
    obtain ⟨hcall, -⟩ := List.cons_eq_cons.mp hrest
    cases (Prod.mk.inj hcall).1
  · have hlength := congrArg List.length hsplit
    simp [second] at hlength

end AssetStore
