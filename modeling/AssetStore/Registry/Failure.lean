import AssetStore.Registry.Accounting
import AssetStore.Registry.Change

/-! Calls that raise. The reference registry has no rollback: an operation makes its checks before
its first change, so that a call that raises leaves the tables as they were, up to tombstones whose
grace period has elapsed. The exception is a detach whose grace period ends after the last
`datetime`. -/

namespace AssetStore

open Lib

/-! ### Statements that do not raise -/

section NoRaise

variable {s : Session} {a : Asset} {id : Text}

theorem utcnow_noRaise : NoRaise utcnow s := .of_ok rfl

theorem updateTables_noRaise {f : Registry → Registry} : NoRaise (updateTables f) s := .of_ok rfl

theorem audit_noRaise {action : AuditAction} {target caller outcome : Text}
    {before after : List (Text × Text)} :
    NoRaise (audit action target caller before after outcome) s :=
  .bind utcnow_noRaise fun _ _ _ => updateTables_noRaise

theorem getAsset_noRaise (get : s.reg.assets.get id = some a) : NoRaise (getAsset id) s :=
  .of_ok (getAsset_eq_ok.mpr ⟨get, rfl⟩)

theorem acquireQuota_noRaise {n : Int} (hs : a.space ∈ storageBuckets)
    (hp : ∃ p, normPart a.partitionId = some p) :
    NoRaise (acquireQuota a.space a.partitionId n) s := by
  obtain ⟨p, hp⟩ := hp
  refine .bind (.of_ok (partitionQuota_eq hs hp)) fun _ _ _ => ?_
  refine .bind updateTables_noRaise fun _ _ _ => ?_
  exact .bind (.of_ok (bucketQuota_eq hs)) fun _ _ _ => updateTables_noRaise

theorem releaseQuota_noRaise (hs : a.space ∈ storageBuckets)
    (hp : ∃ p, normPart a.partitionId = some p) : NoRaise (releaseQuota a) s := by
  obtain ⟨p, hp⟩ := hp
  refine .ite (fun _ => ?_) fun _ => .pure
  refine .bind (.of_ok (partitionQuota_eq hs hp)) fun _ _ _ => ?_
  refine .bind updateTables_noRaise fun _ _ _ => ?_
  exact .bind (.of_ok (bucketQuota_eq hs)) fun _ _ _ => updateTables_noRaise

theorem markForGcIfOrphaned_noRaise {caller : Text} (get : s.reg.assets.get id = some a)
    (hs : a.space ∈ storageBuckets)
    (hp : ∃ p, normPart a.partitionId = some p) : NoRaise (markForGcIfOrphaned id caller) s := by
  refine .bind (getAsset_noRaise get) fun a' s1 h => ?_
  obtain ⟨get', rfl⟩ := getAsset_eq_ok.mp h
  obtain rfl : a = a' := Option.some.inj (get.symm.trans get')
  refine .ite (fun _ => .pure) fun _ => ?_
  exact .bind utcnow_noRaise fun _ _ _ => .bind utcnow_noRaise fun _ _ _ =>
    .bind updateTables_noRaise fun _ _ _ => .bind (releaseQuota_noRaise hs hp) fun _ _ _ =>
      audit_noRaise

end NoRaise

/-! ### Calls -/

/-- Bound aliases name stored assets. -/
def Registry.BindsStored (r : Registry) : Prop :=
  ∀ key b id, r.aliases.get key = some b → b.assetId = some id → ∃ a, r.assets.get id = some a

section Calls

variable {env : Env} {s : Session} {id caller : Text}

theorem expireAsset_raises (hv : s.books.Valid normPart) :
    RaisesWithin Sweeps (expireAsset id caller) s := by
  refine .bind Within.getAsset fun a s1 h1 => .bind Within.attempt fun _ s2 h2 => .of_noRaise ?_
  obtain ⟨get, rfl⟩ := getAsset_eq_ok.mp h1
  have ha := (stored_valid hv get).1
  exact .bind utcnow_noRaise fun _ _ _ => .bind utcnow_noRaise fun _ _ _ =>
    .bind updateTables_noRaise fun _ _ _ =>
      .bind (releaseQuota_noRaise ha.space_mem ha.partition_known) fun _ _ _ =>
      .bind audit_noRaise fun _ _ _ => .pure

theorem deleteAsset_raises (hv : s.books.Valid normPart) :
    RaisesWithin Sweeps (deleteAsset id caller) s := by
  refine .bind Within.getAsset fun a s1 h1 => .bind Within.attempt fun _ s2 h2 => .of_noRaise ?_
  obtain ⟨get, rfl⟩ := getAsset_eq_ok.mp h1
  have ha := (stored_valid hv get).1
  exact .bind utcnow_noRaise fun _ _ _ => .bind updateTables_noRaise fun _ _ _ =>
    .bind (releaseQuota_noRaise ha.space_mem ha.partition_known) fun _ _ _ =>
      .bind audit_noRaise fun _ _ _ => .pure

theorem commitAsset_raises {size : Int} {checksum : Text} {mime expected : Option Text}
    (hv : s.books.Valid normPart) :
    RaisesWithin Sweeps (commitAsset env id size checksum caller mime expected) s := by
  refine .bind Within.attempt fun _ s1 h1 => .bind Within.attempt fun _ s2 h2 =>
    .bind Within.attempt fun _ s3 h3 => .bind Within.getAsset fun a s4 h4 => ?_
  obtain ⟨-, rfl⟩ := attempt_eq_ok.mp h1
  obtain ⟨-, rfl⟩ := attempt_eq_ok.mp h2
  obtain ⟨-, rfl⟩ := attempt_eq_ok.mp h3
  obtain ⟨get, rfl⟩ := getAsset_eq_ok.mp h4
  have ha := (stored_valid hv get).1
  refine .bind Within.attempt fun _ _ _ => .bind Within.attempt fun _ _ _ =>
    .bind Within.enforceQuota fun _ _ _ => .of_noRaise ?_
  exact .bind utcnow_noRaise fun _ _ _ => .bind updateTables_noRaise fun _ _ _ =>
    .bind (acquireQuota_noRaise ha.space_mem ha.partition_known) fun _ _ _ =>
      .bind audit_noRaise fun _ _ _ => .pure

theorem updateAnnotations_raises {patch : Mapping} {overwrite : Bool} :
    RaisesWithin Sweeps (updateAnnotations id patch caller overwrite) s := by
  refine .bind Within.getAsset fun _ _ _ => .bind Within.attempt fun _ _ _ => .of_noRaise ?_
  exact .bind utcnow_noRaise fun _ _ _ => .bind updateTables_noRaise fun _ _ _ =>
    .bind utcnow_noRaise fun _ _ _ => .bind updateTables_noRaise fun _ _ _ => .pure

theorem setEvictionPolicy_raises {policy : EvictionPolicy} :
    RaisesWithin Sweeps (setEvictionPolicy id policy caller) s := by
  refine .bind Within.getAsset fun _ _ _ => .bind Within.attempt fun _ _ _ => .of_noRaise ?_
  exact .bind utcnow_noRaise fun _ _ _ => .bind updateTables_noRaise fun _ _ _ =>
    .bind audit_noRaise fun _ _ _ => .pure

theorem recordRead_raises : RaisesWithin Sweeps (recordRead id) s :=
  .bind Within.getAsset fun _ _ _ => .of_noRaise <|
    .ite (fun _ => .bind utcnow_noRaise fun _ _ _ => updateTables_noRaise) fun _ => .pure

theorem lifecycleUpdate_raises {a : Asset} {state : AssetState} {now : Time} {reason : Text}
    {purge : Bool} (hv : s.books.Valid normPart) :
    RaisesWithin Sweeps (lifecycleUpdate a state now reason purge) s := by
  refine .bind Within.getAsset fun current s1 h1 => .bind Within.attempt fun _ s2 h2 =>
    .bind Within.attempt fun _ s3 h3 => .of_noRaise ?_
  obtain ⟨get, rfl⟩ := getAsset_eq_ok.mp h1
  obtain ⟨hsame, rfl⟩ := attempt_eq_ok.mp h2
  obtain rfl : current = a := by simpa using hsame
  have ha := (stored_valid hv get).1
  exact .bind (releaseQuota_noRaise ha.space_mem ha.partition_known) fun _ _ _ =>
    .bind updateTables_noRaise fun _ _ _ =>
    .bind audit_noRaise fun _ _ _ => .pure

theorem setAssetTtl_raises {ttl : Int} (hv : s.books.Valid normPart) :
    RaisesWithin Sweeps (setAssetTtl env id ttl caller) s := by
  refine .bind Within.getAsset fun a s1 h1 => .bind Within.attempt fun _ _ _ =>
    .bind Within.attempt fun _ _ _ => .bind Within.utcnow fun _ _ _ =>
      .bind Within.attempt fun deadline s2 _ => ?_
  obtain ⟨get, rfl⟩ := getAsset_eq_ok.mp h1
  have ha := (stored_valid hv get).1
  have rest :
      ∀ {s : Session} {b : Asset} {before after : List (Text × Text)} {f : Unit → RegM Asset},
      (∀ u s', NoRaise (f u) s') →
      NoRaise (putAsset id b >>= fun _ => audit .ttlSet id caller before after >>= f) s :=
    fun hf => .bind updateTables_noRaise fun _ _ _ => .bind audit_noRaise fun _ _ _ => hf _ _
  intro e s' h
  -- the quotas are checked before they are charged
  unfold admitRestore at h
  split at h
  · rw [bind_assoc] at h
    refine RaisesWithin.bind Within.enforceQuota (fun _ _ _ => .of_noRaise ?_) e s' h
    exact .bind (acquireQuota_noRaise ha.space_mem ha.partition_known) fun _ _ _ =>
      rest fun _ _ => .pure
  · exact absurd h (rest (fun _ _ => .pure) e s')

theorem attachAlias_raises {name : Text} {mutable : Bool} :
    RaisesWithin Sweeps (attachAlias id name mutable caller) s := by
  refine .bind Within.getAsset fun a s1 h1 => .bind Within.attempt fun _ s2 h2 =>
    .bind Within.attempt fun _ s3 h3 => .bind Within.attempt fun _ s4 h4 =>
      .bind requireAliasNameAvailable_sweeps fun _ s5 h5 => .bind Within.attempt fun key s6 h6 => ?_
  obtain ⟨get, rfl⟩ := getAsset_eq_ok.mp h1
  obtain ⟨-, rfl⟩ := attempt_eq_ok.mp h2
  obtain ⟨-, rfl⟩ := attempt_eq_ok.mp h3
  obtain ⟨-, rfl⟩ := attempt_eq_ok.mp h4
  obtain ⟨-, rfl⟩ := attempt_eq_ok.mp h6
  have get5 : s5.reg.assets.get id = some a := by
    rw [(requireAliasNameAvailable_sweeps.ok h5).reg]
    exact get
  refine .of_noRaise (.bind utcnow_noRaise fun now s7 h7 =>
    .bind updateTables_noRaise fun _ s8 h8 => ?_)
  obtain ⟨-, rfl⟩ := utcnow_eq_ok.mp h7
  obtain rfl := putBinding_eq_ok.mp h8
  refine .bind (.bind (getAsset_noRaise (a := a) get5) fun _ _ _ => ?_) fun _ _ _ => ?_
  · exact .bind utcnow_noRaise fun _ _ _ => updateTables_noRaise
  · exact .bind audit_noRaise fun _ _ _ => .pure

/-- Taking an alias off a stored asset, which stays stored. -/
theorem removeAliasFromAsset_eq_ok {key : Text} {u : Unit} {s' : Session}
    (h : removeAliasFromAsset id key s = .ok u s') :
    ∃ a, s.reg.assets.get id = some a ∧
      s' = s.tick.put id { a with aliases := a.aliases.erase key, updatedAt := s.clock 0 } := by
  simp only [removeAliasFromAsset, bind_eq_ok, getAsset_eq_ok, utcnow_eq_ok, putAsset_eq_ok] at h
  obtain ⟨a, _, ⟨get, rfl⟩, _, _, ⟨rfl, rfl⟩, rfl⟩ := h
  exact ⟨a, get, rfl⟩

theorem removeAliasFromAsset_noRaise {key : Text} {a : Asset} (get : s.reg.assets.get id = some a) :
    NoRaise (removeAliasFromAsset id key) s :=
  .bind (getAsset_noRaise get) fun _ _ _ => .bind utcnow_noRaise fun _ _ _ => updateTables_noRaise

/-- Burying a name fails when the grace period ends after the last `datetime`. -/
theorem buryName_eq_error {key : Text} {e : Err} {s' : Session} (h : buryName key s = .error e s') :
    e.cls = .overflowError ∧ 0 < s.reg.aliasGrace ∧ maxTime < s.clock 0 + s.reg.aliasGrace ∧
      s'.reg = s.reg := by
  rcases bind_eq_error.mp h with h | ⟨r, s1, h1, h⟩
  · exact (NoRaise.of_ok rfl e s' h).elim
  obtain ⟨rfl, rfl⟩ := tables_eq_ok.mp h1
  split at h
  · rename_i hgrace
    rcases bind_eq_error.mp h with h | ⟨now, s2, h2, h⟩
    · exact (utcnow_noRaise e s' h).elim
    obtain ⟨rfl, rfl⟩ := utcnow_eq_ok.mp h2
    rcases bind_eq_error.mp h with h | ⟨_, s3, -, h⟩
    · obtain ⟨hraise, rfl⟩ := attempt_eq_error.mp h
      obtain ⟨hover, rfl⟩ := raiseIf_eq_error.mp hraise
      exact ⟨rfl, hgrace, hover, rfl⟩
    · exact (updateTables_noRaise e s' h).elim
  · exact (NoRaise.pure e s' h).elim

/-- The part of a detach that follows its checks fails only when it buries the name. -/
theorem dropBinding_eq_error {key : Text} {a : Asset} {e : Err} {s' : Session}
    (hv : s.books.Valid normPart) (get : s.reg.assets.get id = some a)
    (h : (do
      updateTables fun r => { r with aliases := r.aliases.erase key }
      removeAliasFromAsset id key
      buryName key
      audit .aliasDetach key caller [("asset_id".toList, id)] []
      markForGcIfOrphaned id caller) s = .error e s') :
    e.cls = .overflowError ∧ 0 < s.reg.aliasGrace ∧ maxTime < s.clock 1 + s.reg.aliasGrace ∧
      s'.reg =
        { s.reg with
          assets := s.reg.assets.set id
            { a with aliases := a.aliases.erase key, updatedAt := s.clock 0 }
          aliases := s.reg.aliases.erase key } := by
  have ha := (stored_valid hv get).1
  rcases bind_eq_error.mp h with h | ⟨_, s1, h1, h⟩
  · exact (updateTables_noRaise e s' h).elim
  obtain rfl := updateTables_eq_ok.mp h1
  rcases bind_eq_error.mp h with h | ⟨_, s2, h2, h⟩
  · exact absurd h (removeAliasFromAsset_noRaise (a := a) (by exact get) e s')
  obtain ⟨a', get', rfl⟩ := removeAliasFromAsset_eq_ok h2
  obtain rfl : a = a' := Option.some.inj (get.symm.trans get')
  rcases bind_eq_error.mp h with h | ⟨_, s3, h3, h⟩
  · exact buryName_eq_error h
  -- once the name is buried nothing is left that can fail
  refine (NoRaise.bind audit_noRaise (fun _ s4 h4 => ?_) e s' h).elim
  obtain ⟨_, -, -, hreg⟩ := buryName_eq_ok h3
  obtain rfl := audit_eq_ok.mp h4
  have get4 : s3.reg.assets.get id =
      some { a with aliases := a.aliases.erase key, updatedAt := s.clock 0 } := by
    rw [hreg]
    exact Dict.get_set_self _ _ _
  exact markForGcIfOrphaned_noRaise get4 ha.space_mem ha.partition_known

/-- A detach that raises has changed nothing, or has dropped the binding and overflowed. -/
theorem detachAlias_raises {R : Session → Session → Prop} [Frame R] {space name : Text} {e : Err}
    {s' : Session} (hv : s.books.Valid normPart) (hb : s.reg.BindsStored)
    (h : detachAlias space name caller s = .error e s') :
    R s s' ∨ e.cls = .overflowError ∧
      (Op.detachAlias space name caller).Overflows s.clock s.reg.aliasGrace ∧
      Change env s.clock s.reg (.detachAlias space name caller) s'.reg := by
  rcases bind_eq_error.mp h with h | ⟨b, s1, h1, h⟩
  · exact .inl (Within.getBinding.error h)
  obtain ⟨found, hfound, hget, rfl⟩ := getBinding_eq_key.mp h1
  rcases bind_eq_error.mp h with h | ⟨_, s2, h2, h⟩
  · exact .inl (Within.attempt.error h)
  obtain ⟨himmutable, rfl⟩ := attempt_eq_ok.mp h2
  rcases bind_eq_error.mp h with h | ⟨key, s3, h3, h⟩
  · exact .inl (Within.attempt.error h)
  obtain ⟨hown, rfl⟩ := attempt_eq_ok.mp h3
  rcases bind_eq_error.mp h with h | ⟨id, s4, h4, h⟩
  · exact .inl (Within.attempt.error h)
  obtain ⟨hbound, rfl⟩ := attempt_eq_ok.mp h4
  have hbound := someOr_eq_ok.mp hbound
  obtain ⟨a, get⟩ := hb found b id hget hbound
  obtain ⟨hcls, hgrace, hover, hreg⟩ := dropBinding_eq_error hv get h
  have hoverflows : (Op.detachAlias space name caller).Overflows s.clock s.reg.aliasGrace :=
    ⟨hgrace, hover⟩
  refine .inr ⟨hcls, hoverflows, ?_⟩
  rw [hreg]
  exact .drop hfound hget hown (by simpa [raiseNaming_eq_ok] using himmutable) hbound get hoverflows

theorem detachMutableAlias_raises {space name : Text} (hv : s.books.Valid normPart)
    (hb : s.reg.BindsStored) : RaisesWithin Sweeps (detachMutableAlias space name caller) s := by
  refine .bind Within.getBinding fun b s1 h1 => .bind Within.attempt fun _ s2 h2 =>
    .bind Within.attempt fun key s3 h3 => .bind Within.attempt fun id s4 h4 => ?_
  obtain ⟨found, -, hget, rfl⟩ := getBinding_eq_key.mp h1
  obtain ⟨-, rfl⟩ := attempt_eq_ok.mp h2
  obtain ⟨-, rfl⟩ := attempt_eq_ok.mp h3
  obtain ⟨hbound, rfl⟩ := attempt_eq_ok.mp h4
  obtain ⟨a, get⟩ := hb found b id hget (someOr_eq_ok.mp hbound)
  have ha := (stored_valid hv get).1
  refine .of_noRaise (.bind (removeAliasFromAsset_noRaise (a := a) get) fun _ s5 h5 => ?_)
  obtain ⟨a', get', rfl⟩ := removeAliasFromAsset_eq_ok h5
  obtain rfl : a = a' := Option.some.inj (get.symm.trans get')
  refine .bind utcnow_noRaise fun _ s6 h6 => .bind updateTables_noRaise fun _ s7 h7 =>
    .bind audit_noRaise fun _ s8 h8 => .bind ?_ fun _ _ _ => .pure
  obtain ⟨-, rfl⟩ := utcnow_eq_ok.mp h6
  obtain rfl := putBinding_eq_ok.mp h7
  obtain rfl := audit_eq_ok.mp h8
  have get8 : (s.reg.assets.set id
      { a with aliases := a.aliases.erase key, updatedAt := s.clock 0 }).get id =
        some { a with aliases := a.aliases.erase key, updatedAt := s.clock 0 } :=
    Dict.get_set_self _ _ _
  exact markForGcIfOrphaned_noRaise get8 ha.space_mem ha.partition_known

theorem rebindAlias_raises {space name newId : Text} :
    RaisesWithin Sweeps (rebindAlias space name newId caller) s := by
  refine .bind Within.getBinding fun b s1 h1 => .bind Within.attempt fun _ s2 h2 =>
    .bind Within.attempt fun _ s3 h3 => .bind Within.getAsset fun a s4 h4 =>
      .bind Within.attempt fun _ s5 h5 => .bind Within.attempt fun _ s6 h6 =>
        .bind Within.attempt fun _ s7 h7 => .bind Within.attempt fun _ s8 h8 =>
          .bind Within.attempt fun key s9 h9 => ?_
  obtain ⟨get, rfl⟩ := getAsset_eq_ok.mp h4
  obtain ⟨-, rfl⟩ := attempt_eq_ok.mp h5
  obtain ⟨-, rfl⟩ := attempt_eq_ok.mp h6
  obtain ⟨-, rfl⟩ := attempt_eq_ok.mp h7
  obtain ⟨-, rfl⟩ := attempt_eq_ok.mp h8
  obtain ⟨-, rfl⟩ := attempt_eq_ok.mp h9
  refine .of_noRaise (.bind utcnow_noRaise fun now s10 h10 =>
    .bind updateTables_noRaise fun _ s11 h11 => ?_)
  obtain ⟨-, rfl⟩ := utcnow_eq_ok.mp h10
  obtain rfl := putBinding_eq_ok.mp h11
  refine .bind (.bind (getAsset_noRaise (a := a) get) fun _ _ _ => ?_) fun _ _ _ => ?_
  · exact .bind utcnow_noRaise fun _ _ _ => updateTables_noRaise
  · exact .bind audit_noRaise fun _ _ _ => .pure

theorem bindNames_noRaise {space pid owner : Text} {now : Time} :
    ∀ {specs : List (Text × Bool)} {s : Session},
      (∀ spec ∈ specs, ∃ key, scopedKey space pid spec.1 = .ok key) →
      NoRaise (bindNames space pid id owner now specs) s
  | [], _, _ => .pure
  | spec :: rest, s, h => by
    obtain ⟨key, hkey⟩ := h spec List.mem_cons_self
    simp only [scopedKey, except_bind_eq_ok] at hkey
    obtain ⟨path, hpath, hkey⟩ := hkey
    refine .bind (.of_ok (attempt_of_ok hpath)) fun path' s1 h1 => ?_
    obtain ⟨hpath', rfl⟩ := attempt_eq_ok.mp h1
    obtain rfl : path = path' := by simpa [hpath] using hpath'
    refine .bind (.of_ok (attempt_of_ok hkey)) fun _ _ _ => .bind updateTables_noRaise fun _ _ _ =>
      .bind audit_noRaise fun _ _ _ => ?_
    exact bindNames_noRaise fun spec' hmem => h spec' (List.mem_cons_of_mem _ hmem)

theorem reserveAsset_raises {newId : Text} {req : ReserveRequest} :
    RaisesWithin Sweeps (reserveAsset env newId req) s := by
  refine .bind Within.attempt fun space _ _ => .bind Within.attempt fun pid _ _ =>
    .bind Within.attempt fun specs _ _ =>
      .bind (requireNamesAvailable_sweeps _) fun _ s1 hfree => ?_
  refine .bind (Within.admitReservation _) fun _ _ _ => .bind Within.utcnow fun now _ _ =>
    .bind Within.attempt fun keys _ _ => .bind Within.attempt fun _ _ _ =>
      .bind Within.attempt fun _ _ _ => .of_noRaise ?_
  refine .bind updateTables_noRaise fun _ _ _ => .bind (bindNames_noRaise fun spec hspec => ?_)
    fun _ _ _ => .bind ?_ fun _ _ _ => .pure
  · -- each name was scoped and qualified when its availability was checked
    obtain ⟨name, hname, rfl⟩ := List.mem_map.mp hspec
    obtain ⟨key, hkey, -⟩ := requireNamesAvailable_free hfree name hname
    exact ⟨key, hkey⟩
  · cases req.reservedBytes with
    | none => exact .pure
    | some n => exact audit_noRaise

theorem setPartitionQuota_raises {space pid : Text} {bytes count : Option Int}
    {sweep : Option Bool} :
    RaisesWithin Sweeps (setPartitionQuota space pid bytes count sweep caller) s :=
  .bind Within.attempt fun _ _ _ => .bind Within.attempt fun _ _ _ =>
    .bind Within.partitionQuota fun _ _ _ => .of_noRaise <|
      .bind updateTables_noRaise fun _ _ _ => .bind audit_noRaise fun _ _ _ => .pure

theorem setBucketQuota_raises {space : Text} {bytes : Option Int} {warn hard : Rat} :
    RaisesWithin Sweeps (setBucketQuota space bytes warn hard) s :=
  .bind Within.attempt fun _ _ _ => .bind Within.bucketQuota fun _ _ _ => .of_noRaise <|
    .bind updateTables_noRaise fun _ _ _ => .pure

theorem raises_of_reply {α β : Type} {m : RegM α} {f : α → β} (h : RaisesWithin Sweeps m s) :
    RaisesWithin Sweeps (m >>= fun x => pure (f x)) s := by
  intro e s' he
  rcases bind_eq_error.mp he with he | ⟨_, _, -, he⟩
  · exact h e s' he
  · simp at he

/-- Apart from `detach_alias`, a call that raises has changed nothing but elapsed tombstones. -/
theorem Op.raisesWithin {op : Op} (hv : s.books.Valid normPart) (hb : s.reg.BindsStored)
    (hop : ∀ space name caller, op ≠ .detachAlias space name caller) :
    RaisesWithin Sweeps (op.run env) s := by
  cases op with
  | recordCapabilityIssue => exact raises_of_reply (.of_noRaise audit_noRaise)
  | reserveAsset => exact raises_of_reply reserveAsset_raises
  | attachAlias => exact raises_of_reply attachAlias_raises
  | commitAsset => exact raises_of_reply (commitAsset_raises hv)
  | updateAnnotations => exact raises_of_reply updateAnnotations_raises
  | resolveAlias => exact raises_of_reply (.of_within Within.resolveAlias)
  | detachAlias space name caller => exact (hop space name caller rfl).elim
  | detachMutableAlias => exact raises_of_reply (detachMutableAlias_raises hv hb)
  | rebindAlias => exact raises_of_reply rebindAlias_raises
  | expireAsset => exact raises_of_reply (expireAsset_raises hv)
  | deleteAsset => exact raises_of_reply (deleteAsset_raises hv)
  | setEvictionPolicy => exact raises_of_reply setEvictionPolicy_raises
  | setPartitionQuota => exact raises_of_reply setPartitionQuota_raises
  | setBucketQuota => exact raises_of_reply setBucketQuota_raises
  | getPartitionQuota => exact raises_of_reply (.of_within Within.partitionQuota)
  | getBucketQuota => exact raises_of_reply (.of_within Within.bucketQuota)
  | reservedUploadBytes =>
    exact raises_of_reply (.bind Within.tables fun _ _ _ => .bind Within.attempt fun _ _ _ =>
      .of_noRaise .pure)
  | listAssets => exact raises_of_reply (.bind Within.tables fun _ _ _ => .of_noRaise .pure)
  | recordRead => exact raises_of_reply recordRead_raises
  | lifecycleUpdate => exact raises_of_reply (lifecycleUpdate_raises hv)
  | recentAudit =>
    exact raises_of_reply (.bind Within.attempt fun _ _ _ => .bind Within.tables fun _ _ _ =>
      .of_noRaise .pure)
  | getAsset => exact raises_of_reply (.of_within Within.getAsset)
  | queryAssets =>
    exact raises_of_reply (.bind Within.attempt fun _ _ _ => .bind Within.tables fun _ _ _ =>
      .of_noRaise .pure)
  | setAssetTtl => exact raises_of_reply (setAssetTtl_raises hv)
  | auditEvents => exact .bind Within.tables fun _ _ _ => .of_noRaise .pure

/-- A call that raises has changed nothing but elapsed tombstones, unless it is a detach that
overflows. -/
theorem Op.raises {op : Op} {e : Err} {s' : Session} (hv : s.books.Valid normPart)
    (hb : s.reg.BindsStored) (h : op.run env s = .error e s') :
    Sweeps s s' ∨ e.cls = .overflowError ∧ op.Overflows s.clock s.reg.aliasGrace ∧
      Change env s.clock s.reg op s'.reg := by
  by_cases hdetach : ∃ space name caller, op = .detachAlias space name caller
  · obtain ⟨space, name, caller, rfl⟩ := hdetach
    rcases bind_eq_error.mp h with h | ⟨_, _, -, h⟩
    · exact detachAlias_raises hv hb h
    · exact (NoRaise.pure e s' h).elim
  · exact .inl (Op.raisesWithin hv hb (fun space name caller heq => hdetach ⟨_, _, _, heq⟩) e s' h)

end Calls

end AssetStore
