import AssetStore.Registry.Failure

/-! The alias index. A binding names its asset and the asset lists its keys: the two sides agree in
every reachable state, whatever the partition ids. -/

namespace AssetStore

open Lib Relation

/-- The binding table and the alias sets of the assets agree. -/
structure Indexed (aliases : Dict Text AliasBinding) (assets : Dict Text Asset) : Prop where
  own : ∀ key b, aliases.get key = some b → b.qualifiedAlias = .ok key
  listed : ∀ key b id, aliases.get key = some b → b.assetId = some id →
    ∃ a, assets.get id = some a ∧ key ∈ a.aliases
  bound : ∀ id a key, assets.get id = some a → key ∈ a.aliases →
    ∃ b, aliases.get key = some b ∧ b.assetId = some id
  unbound : ∀ key b, aliases.get key = some b → b.assetId = none →
    b.mutable = true ∧ ∃ id a, b.previousAssetId = some id ∧ assets.get id = some a

namespace Indexed

variable {aliases : Dict Text AliasBinding} {assets : Dict Text Asset} {id key : Text}
  {a a' : Asset}
  {b : AliasBinding}

theorem empty : Indexed .empty .empty where
  own _ _ h := by cases h
  listed _ _ _ h := by cases h
  bound _ _ _ h := by cases h
  unbound _ _ h := by cases h

/-- Storing an asset again keeps every id that is stored. -/
theorem stored_set (id : Text) (a' : Asset) {other : Text} {c : Asset}
    (h : assets.get other = some c) :
    ∃ c', (assets.set id a').get other = some c' := by
  rw [Dict.get_set]
  split
  · exact ⟨a', rfl⟩
  · exact ⟨c, h⟩

/-- Rewriting a record without its alias set. -/
theorem put (h : Indexed aliases assets) (get : assets.get id = some a)
    (same : a'.aliases = a.aliases) : Indexed aliases (assets.set id a') where
  own := h.own
  listed k b' i hk hi := by
    obtain ⟨c, hc, hmem⟩ := h.listed k b' i hk hi
    by_cases heq : i = id
    · subst heq
      obtain rfl : a = c := Option.some.inj (get.symm.trans hc)
      exact ⟨a', Dict.get_set_self _ _ _, same ▸ hmem⟩
    · exact ⟨c, by rw [Dict.get_set_ne _ _ heq, hc], hmem⟩
  bound i c k hi hk := by
    by_cases heq : i = id
    · subst heq
      rw [Dict.get_set_self] at hi
      obtain rfl := Option.some.inj hi
      exact h.bound i a k get (same ▸ hk)
    · rw [Dict.get_set_ne _ _ heq] at hi
      exact h.bound i c k hi hk
  unbound k b' hk hb := by
    obtain ⟨hmut, i, c, hprev, hc⟩ := h.unbound k b' hk hb
    obtain ⟨c', hc'⟩ := stored_set id a' hc
    exact ⟨hmut, i, c', hprev, hc'⟩

/-- Binding a key that is free, or unbound, to a stored asset. -/
theorem bind (h : Indexed aliases assets) (get : assets.get id = some a)
    (free : ∀ b', aliases.get key = some b' → b'.assetId = none) (own : b.qualifiedAlias = .ok key)
    (target : b.assetId = some id) (lists : a'.aliases = insert key a.aliases) :
    Indexed (aliases.set key b) (assets.set id a') where
  own k b' hk := by
    rw [Dict.get_set] at hk
    split at hk
    · rename_i heq
      obtain rfl := Option.some.inj hk
      exact heq ▸ own
    · exact h.own k b' hk
  listed k b' i hk hi := by
    rw [Dict.get_set] at hk
    split at hk
    · rename_i heq
      obtain rfl := Option.some.inj hk
      obtain rfl : id = i := Option.some.inj (target.symm.trans hi)
      refine ⟨a', Dict.get_set_self _ _ _, ?_⟩
      rw [lists, heq]
      exact Finset.mem_insert_self _ _
    · obtain ⟨c, hc, hmem⟩ := h.listed k b' i hk hi
      by_cases heq : i = id
      · subst heq
        obtain rfl : a = c := Option.some.inj (get.symm.trans hc)
        exact ⟨a', Dict.get_set_self _ _ _, lists ▸ Finset.mem_insert_of_mem hmem⟩
      · exact ⟨c, by rw [Dict.get_set_ne _ _ heq, hc], hmem⟩
  bound i c k hi hk := by
    have old : ∀ c, assets.get i = some c → k ∈ c.aliases →
        ∃ b', (aliases.set key b).get k = some b' ∧ b'.assetId = some i := by
      intro c hc hk
      obtain ⟨b', hb', hto⟩ := h.bound i c k hc hk
      have hne : k ≠ key := by
        rintro rfl
        rw [free b' hb'] at hto
        cases hto
      exact ⟨b', by rw [Dict.get_set_ne _ _ hne, hb'], hto⟩
    by_cases heq : i = id
    · subst heq
      rw [Dict.get_set_self] at hi
      obtain rfl := Option.some.inj hi
      rw [lists, Finset.mem_insert] at hk
      rcases hk with rfl | hk
      · exact ⟨b, Dict.get_set_self _ _ _, target⟩
      · exact old a get hk
    · rw [Dict.get_set_ne _ _ heq] at hi
      exact old c hi hk
  unbound k b' hk hb := by
    rw [Dict.get_set] at hk
    split at hk
    · obtain rfl := Option.some.inj hk
      rw [target] at hb
      cases hb
    · obtain ⟨hmut, i, c, hprev, hc⟩ := h.unbound k b' hk hb
      obtain ⟨c', hc'⟩ := stored_set id a' hc
      exact ⟨hmut, i, c', hprev, hc'⟩

/-- The key of a bound alias, as its binding gives it. -/
theorem key_eq (h : Indexed aliases assets) {found : Text} (get : aliases.get found = some b)
    (own : b.qualifiedAlias = .ok key) : key = found := by
  have := h.own found b get
  rw [own] at this
  exact Except.ok.inj this

/-- No other asset lists a key that is bound to `id`. -/
theorem owner (h : Indexed aliases assets) (get : aliases.get key = some b)
    (target : b.assetId = some id)
    {i : Text} {c : Asset} (hc : assets.get i = some c) (hk : key ∈ c.aliases) : i = id := by
  obtain ⟨b', hb', hto⟩ := h.bound i c key hc hk
  obtain rfl : b = b' := Option.some.inj (get.symm.trans hb')
  exact Option.some.inj (hto.symm.trans target)

/-- A table that has lost the key, or holds it unbound, beside an asset that no longer lists it. -/
theorem release (h : Indexed aliases assets) (get : aliases.get key = some b)
    (target : b.assetId = some id) (asset : assets.get id = some a)
    (lists : a'.aliases = a.aliases.erase key) {aliases' : Dict Text AliasBinding}
    (others : ∀ k, k ≠ key → aliases'.get k = aliases.get k)
    (freed : ∀ b', aliases'.get key = some b' → b'.assetId = none ∧ b'.mutable = true ∧
      b'.qualifiedAlias = .ok key ∧ b'.previousAssetId = some id) :
    Indexed aliases' (assets.set id a') where
  own k b' hk := by
    by_cases heq : k = key
    · subst heq
      exact (freed b' hk).2.2.1
    · exact h.own k b' (others k heq ▸ hk)
  listed k b' i hk hi := by
    have hne : k ≠ key := by
      rintro rfl
      rw [(freed b' hk).1] at hi
      cases hi
    obtain ⟨c, hc, hmem⟩ := h.listed k b' i (others k hne ▸ hk) hi
    by_cases heq : i = id
    · subst heq
      obtain rfl : a = c := Option.some.inj (asset.symm.trans hc)
      exact ⟨a', Dict.get_set_self _ _ _, lists ▸ Finset.mem_erase.mpr ⟨hne, hmem⟩⟩
    · exact ⟨c, by rw [Dict.get_set_ne _ _ heq, hc], hmem⟩
  bound i c k hi hk := by
    by_cases heq : i = id
    · subst heq
      rw [Dict.get_set_self] at hi
      obtain rfl := Option.some.inj hi
      rw [lists, Finset.mem_erase] at hk
      obtain ⟨b', hb', hto⟩ := h.bound i a k asset hk.2
      exact ⟨b', (others k hk.1).trans hb', hto⟩
    · rw [Dict.get_set_ne _ _ heq] at hi
      have hne : k ≠ key := by
        rintro rfl
        exact heq (h.owner get target hi hk)
      obtain ⟨b', hb', hto⟩ := h.bound i c k hi hk
      exact ⟨b', (others k hne).trans hb', hto⟩
  unbound k b' hk hb := by
    by_cases heq : k = key
    · subst heq
      obtain ⟨-, hmut, -, hprev⟩ := freed b' hk
      exact ⟨hmut, id, a', hprev, Dict.get_set_self _ _ _⟩
    · obtain ⟨hmut, i, c, hprev, hc⟩ := h.unbound k b' (others k heq ▸ hk) hb
      obtain ⟨c', hc'⟩ := stored_set id a' hc
      exact ⟨hmut, i, c', hprev, hc'⟩

/-! #### Reservations -/

theorem bindAll_of_not_mem : ∀ {new : List (Text × AliasBinding)} {d : Dict Text AliasBinding},
    key ∉ new.map Prod.fst → (bindAll d new).get key = d.get key
  | [], _, _ => rfl
  | kb :: rest, d, h => by
    simp only [List.map_cons, List.mem_cons, not_or] at h
    exact (bindAll_of_not_mem h.2).trans (Dict.get_set_ne _ _ h.1)

theorem bindAll_of_mem : ∀ {new : List (Text × AliasBinding)} {d : Dict Text AliasBinding},
    key ∈ new.map Prod.fst → ∃ kb ∈ new, kb.1 = key ∧ (bindAll d new).get key = some kb.2
  | kb :: rest, d, h => by
    by_cases hrest : key ∈ rest.map Prod.fst
    · obtain ⟨kb', hmem, hkey, hget⟩ := bindAll_of_mem hrest
      exact ⟨kb', List.mem_cons_of_mem _ hmem, hkey, hget⟩
    · have hkey : key = kb.1 := (List.mem_cons.mp h).resolve_right hrest
      refine ⟨kb, List.mem_cons_self, hkey.symm, ?_⟩
      refine (bindAll_of_not_mem hrest).trans ?_
      rw [hkey, Dict.get_set_self]

/-- A new asset with its bindings. -/
theorem reserve {new : List (Text × AliasBinding)} (h : Indexed aliases assets)
    (fresh : assets.get id = none) (lists : a.aliases = (new.map Prod.fst).toFinset)
    (free : ∀ kb ∈ new, aliases.get kb.1 = none)
    (own : ∀ kb ∈ new, kb.2.qualifiedAlias = .ok kb.1)
    (target : ∀ kb ∈ new, kb.2.assetId = some id) :
    Indexed (bindAll aliases new) (assets.set id a) := by
  have hmem : ∀ k, k ∈ a.aliases ↔ k ∈ new.map Prod.fst := fun k => by rw [lists, List.mem_toFinset]
  have others : ∀ {i c}, assets.get i = some c → (assets.set id a).get i = some c := by
    intro i c hc
    rw [Dict.get_set_ne _ _ (by rintro rfl; rw [fresh] at hc; cases hc), hc]
  -- a key is either one of the new ones or bound as before
  have cases : ∀ {k b'}, (bindAll aliases new).get k = some b' →
      (∃ kb ∈ new, kb.1 = k ∧ kb.2 = b') ∨ k ∉ new.map Prod.fst ∧ aliases.get k = some b' := by
    intro k b' hk
    by_cases hin : k ∈ new.map Prod.fst
    · obtain ⟨kb, hkb, hkey, hget⟩ := bindAll_of_mem (d := aliases) hin
      exact .inl ⟨kb, hkb, hkey, Option.some.inj (hget.symm.trans hk)⟩
    · exact .inr ⟨hin, bindAll_of_not_mem hin ▸ hk⟩
  refine ⟨fun k b' hk => ?_, fun k b' i hk hi => ?_, fun i c k hi hk => ?_, fun k b' hk hb => ?_⟩
  · rcases cases hk with ⟨kb, hkb, rfl, rfl⟩ | ⟨-, hk⟩
    · exact own kb hkb
    · exact h.own k b' hk
  · rcases cases hk with ⟨kb, hkb, rfl, rfl⟩ | ⟨-, hk⟩
    · obtain rfl : id = i := Option.some.inj ((target kb hkb).symm.trans hi)
      exact ⟨a, Dict.get_set_self _ _ _, (hmem _).mpr (List.mem_map_of_mem hkb)⟩
    · obtain ⟨c, hc, hmem'⟩ := h.listed k b' i hk hi
      exact ⟨c, others hc, hmem'⟩
  · by_cases heq : i = id
    · subst heq
      rw [Dict.get_set_self] at hi
      obtain rfl := Option.some.inj hi
      obtain ⟨kb, hkb, hkey, hget⟩ := bindAll_of_mem (d := aliases) ((hmem k).mp hk)
      exact ⟨kb.2, hget, target kb hkb⟩
    · rw [Dict.get_set_ne _ _ heq] at hi
      obtain ⟨b', hb', hto⟩ := h.bound i c k hi hk
      have hin : k ∉ new.map Prod.fst := by
        intro hin
        obtain ⟨kb, hkb, rfl⟩ := List.mem_map.mp hin
        rw [free kb hkb] at hb'
        cases hb'
      exact ⟨b', (bindAll_of_not_mem hin).trans hb', hto⟩
  · rcases cases hk with ⟨kb, hkb, rfl, rfl⟩ | ⟨-, hk⟩
    · rw [target kb hkb] at hb
      cases hb
    · obtain ⟨hmut, i, c, hprev, hc⟩ := h.unbound k b' hk hb
      exact ⟨hmut, i, c, hprev, others hc⟩

end Indexed

/-! ### Runs -/

section Runs

variable {env : Env} {clock : Nat → Time} {op : Op} {r r' : Registry}

theorem Transition.aliases {id : Text} {a a' : Asset} {action : AuditAction}
    (h : Transition env clock id a op action a') : a'.aliases = a.aliases := by
  cases h <;> rfl

/-- A binding is dropped. -/
theorem Indexed.forget {found key id : Text} {a : Asset} {b : AliasBinding} {updatedAt : Time}
    (h : Indexed r.aliases r.assets) (get : r.aliases.get found = some b)
    (own : b.qualifiedAlias = .ok key) (bound : b.assetId = some id)
    (asset : r.assets.get id = some a) :
    Indexed (r.aliases.erase key)
      (r.assets.set id { a with aliases := a.aliases.erase key, updatedAt }) := by
  obtain rfl := h.key_eq get own
  refine h.release get bound asset rfl (fun k hk => Dict.get_erase_ne _ hk) fun b' hb' => ?_
  rw [Dict.get_erase_self] at hb'
  cases hb'

theorem Indexed.change (h : Indexed r.aliases r.assets) (hc : Change env clock r op r') :
    Indexed r'.aliases r'.assets := by
  cases hc with
  | forget => exact h
  | charge => exact h
  | log => exact h
  | note get => exact h.put get rfl
  | reserve fresh _ aliases _ bindings free _ =>
    refine h.reserve fresh aliases (fun kb hkb => (free kb hkb).1)
      (fun kb hkb => ?_) fun kb hkb => ?_
    · obtain ⟨_, hnew⟩ := bindings kb hkb
      exact hnew.key
    · obtain ⟨_, hnew⟩ := bindings kb hkb
      exact hnew.bound
  | attach get _ binding free =>
    refine h.bind get (fun b' hb' => ?_) binding.key binding.bound rfl
    rw [free.1] at hb'
    cases hb'
  | detach _ get own _ bound asset _
  | drop _ get own _ bound asset _ => exact h.forget get own bound asset
  | unbind _ get own hmutable bound asset =>
    obtain rfl := h.key_eq get own
    refine h.release get bound asset rfl (fun k hk => Dict.get_set_ne _ _ hk) fun b' hb' => ?_
    rw [Dict.get_set_self] at hb'
    obtain rfl := Option.some.inj hb'
    exact ⟨rfl, hmutable, own, rfl⟩
  | rebind _ get own _ unbound asset _ _ _ =>
    obtain rfl := h.key_eq get own
    refine h.bind asset (fun b' hb' => ?_) own rfl rfl
    obtain rfl := Option.some.inj (get.symm.trans hb')
    exact unbound
  | move get step _ => exact h.put get step.aliases

theorem Indexed.changes (h : Indexed r.aliases r.assets) (hc : Changes env clock op r r') :
    Indexed r'.aliases r'.assets := by
  induction hc with
  | refl => exact h
  | tail _ hstep ih => exact ih.change hstep

theorem Indexed.bindsStored (h : Indexed r.aliases r.assets) : r.BindsStored := by
  intro key b id hget hid
  obtain ⟨a, ha, -⟩ := h.listed key b id hget hid
  exact ⟨a, ha⟩

/-- A call is a sequence of changes, whether it returns or raises. -/
theorem Op.exec_changes (hv : r.books.Valid normPart) (hi : Indexed r.aliases r.assets)
    (fresh : op.Fresh r) : Changes env clock op r (op.exec env clock r) := by
  unfold Op.exec
  cases h : op.run env ⟨r, clock⟩ with
  | ok reply s' => exact Op.changes (s := ⟨r, clock⟩) fresh h
  | error e s' =>
    rw [final_error]
    rcases Op.raises (s := ⟨r, clock⟩) hv hi.bindsStored h with hsweeps | ⟨-, -, hdrop⟩
    · rw [hsweeps.reg]
      exact .single (.forget hsweeps.elapsed)
    · exact .single hdrop

variable {grace : Int} {calls : List (Op × (Nat → Time))}

theorem Runs.indexed (h : Runs env (Registry.initial grace) calls r) :
    Indexed r.aliases r.assets := by
  generalize hinit : Registry.initial grace = r0 at h
  induction h with
  | nil =>
    subst hinit
    exact .empty
  | snoc before fresh ih =>
    subst hinit
    exact ih.changes (Op.exec_changes before.sound.1 ih fresh)

theorem Runs.append {r0 : Registry} {calls' : List (Op × (Nat → Time))}
    (h : Runs env r0 calls r) (h' : Runs env r calls' r') : Runs env r0 (calls ++ calls') r' := by
  induction h' with
  | nil => simpa using h
  | snoc _ fresh ih =>
    rw [← List.append_assoc]
    exact ih.snoc fresh

/-- What holds at the start and survives every call holds after them. -/
theorem Runs.of_calls {r0 : Registry} {P : Registry → Prop} (h : Runs env r0 calls r) (start : P r0)
    (step : ∀ {before op clock after r}, calls = before ++ (op, clock) :: after →
      Runs env r0 before r → op.Fresh r → P r → P (op.exec env clock r)) : P r := by
  induction h with
  | nil => exact start
  | @snoc r calls op clock before fresh ih =>
    have hr : P r := by
      refine ih fun {first op' clock' rest r'} hsplit hruns hfresh hP => ?_
      exact @step first op' clock' (rest ++ [(op, clock)]) r' (by simp [hsplit]) hruns hfresh hP
    exact @step calls op clock [] r rfl before fresh hr

/-- What holds at the start and survives every change of the calls holds after them. -/
theorem Runs.of_change {P : Registry → Prop} (h : Runs env (Registry.initial grace) calls r)
    (start : P (Registry.initial grace))
    (step : ∀ {op clock r r'}, (op, clock) ∈ calls → P r → Change env clock r op r' → P r') :
    P r := by
  refine h.of_calls start fun {_ op clock _ r} hsplit before fresh hr => ?_
  have hmem : (op, clock) ∈ calls := by simp [hsplit]
  have hchanges : Changes env clock op r (op.exec env clock r) :=
    Op.exec_changes before.sound.1 before.indexed fresh
  generalize op.exec env clock r = r' at hchanges ⊢
  induction hchanges with
  | refl => exact hr
  | tail _ hchange ih => exact step hmem ih hchange

theorem Change.aliasGrace (h : Change env clock r op r') : r'.aliasGrace = r.aliasGrace := by
  cases h <;> rfl

/-- The registry keeps the grace period that it was made with. -/
theorem Runs.aliasGrace (h : Runs env (Registry.initial grace) calls r) : r.aliasGrace = grace :=
  h.of_change (P := fun r => r.aliasGrace = grace) rfl fun _ hr hc => hc.aliasGrace.trans hr

/-- The condition holds of every call, in the registry in which it is made. -/
def MadeWhere (env : Env) (r0 : Registry) (calls : List (Op × (Nat → Time)))
    (P : Op → Registry → Prop) : Prop :=
  ∀ before op clock after r, calls = before ++ (op, clock) :: after → Runs env r0 before r → P op r

/-- A call that raises a domain error leaves everything as it was, up to tombstones whose grace
period has elapsed. -/
theorem failed_call_intact {e : Err} {s' : Session} (h : Runs env (Registry.initial grace) calls r)
    (raised : op.run env ⟨r, clock⟩ = .error e s') (domain : e.cls ≠ .overflowError) :
    s'.reg.assets = r.assets ∧ s'.reg.aliases = r.aliases ∧
      s'.reg.partitionQuotas = r.partitionQuotas ∧ s'.reg.bucketQuotas = r.bucketQuotas ∧
      s'.reg.auditEvents = r.auditEvents ∧
      ∀ key, s'.reg.tombstones.get key = r.tombstones.get key ∨
        s'.reg.tombstones.get key = none ∧ ∃ deadline now, r.tombstones.get key = some deadline ∧
          Reads clock now ∧ deadline ≤ now := by
  have hsweeps := (Op.raises h.sound.1 h.indexed.bindsStored raised).resolve_right
    fun hover => domain hover.1
  refine ⟨?_, ?_, ?_, ?_, ?_, hsweeps.elapsed⟩ <;> rw [hsweeps.reg]

/-- A second commit of the same upload. -/
theorem failed_commit_intact :
    ∃ e s', commitCall.run plainEnv ⟨uploaded, fun _ => 2⟩ = .error e s' ∧
    e.cls = .invalidStateTransition ∧ s'.reg.auditEvents = uploaded.auditEvents := by
  have hraises : raises (fun e _ => e.cls == .invalidStateTransition)
      (commitCall.run plainEnv ⟨uploaded, fun _ => 2⟩) = true := by decide +kernel
  obtain ⟨e, s', h, hcls⟩ := exists_error_of_raises hraises
  have hcls : e.cls = .invalidStateTransition := by simpa using hcls
  exact ⟨e, s', h, hcls, (failed_call_intact uploaded_runs h (by simp [hcls])).2.2.2.2.1⟩

/-! #### Runs of given calls -/

def Op.isFresh (r : Registry) : Op → Bool
  | .reserveAsset newId _ => (r.assets.get newId).isNone
  | _ => true

theorem Op.fresh_of_isFresh (h : op.isFresh r = true) : op.Fresh r := by
  cases op with
  | reserveAsset newId req => exact Option.isNone_iff_eq_none.mp h
  | _ => trivial

theorem Op.fresh_of_ne (h : ∀ newId req, op ≠ .reserveAsset newId req) (r : Registry) :
    op.Fresh r := by
  cases op with
  | reserveAsset newId req => exact (h newId req rfl).elim
  | _ => trivial

/-- Makes the calls one after the other, as long as the generated ids are fresh. -/
def playCalls (env : Env) (r : Registry) : List (Op × (Nat → Time)) → Option Registry
  | [] => some r
  | (op, clock) :: rest => if op.isFresh r then playCalls env (op.exec env clock r) rest else none

theorem Runs.play {r0 : Registry} {rest : List (Op × (Nat → Time))} (before : Runs env r0 calls r)
    (h : playCalls env r rest = some r') : Runs env r0 (calls ++ rest) r' := by
  induction rest generalizing calls r with
  | nil =>
    obtain rfl := Option.some.inj h
    rwa [List.append_nil]
  | cons call rest ih =>
    obtain ⟨op, clock⟩ := call
    simp only [playCalls] at h
    split at h
    · have hstep : Runs env r0 (calls ++ [(op, clock)]) (op.exec env clock r) :=
        before.snoc (Op.fresh_of_isFresh ‹_›)
      rw [List.append_cons]
      exact ih hstep h
    · cases h

/-- The reservation of an asset that is cited as `m/x`. -/
def citeCall (id : Text) : Op :=
  .reserveAsset id
    { space := "cache".toList, partitionId := "m".toList, aliases := [("x".toList, false)]
      ownerServiceId := "svc".toList }

def withdrawCall : Op := .detachAlias "cache".toList "m/x".toList "svc".toList

/-- `timedelta.max`. -/
def maxGrace : Int := 86399999999999999999

theorem exists_runs_of_play {P : Registry → Bool} (h : (playCalls env r calls).any P = true) :
    ∃ r', Runs env r calls r' ∧ P r' = true := by
  obtain ⟨r', hplay, hP⟩ := (Option.any_eq_true _ _).mp h
  exact ⟨r', by simpa using Runs.nil.play hplay, hP⟩

end Runs

end AssetStore
