import AssetStore.Registry.Clock

/-! What a reservation under one name and a commit leave when they succeed. -/

namespace AssetStore

open Lib

section Upload

variable {env : Env} {s s' : Session}

theorem normalizeAliasSpecs_single {name : Text} {mutable : Bool} {d : Dict Text Bool}
    (h : normalizeAliasSpecs [(name, mutable)] = .ok d) :
    ∃ n, normalizeRelativeAlias name = .ok n ∧ d.keys = [n] ∧ d.get n = some mutable := by
  simp only [normalizeAliasSpecs, List.foldlM_cons, List.foldlM_nil, except_bind_eq_ok,
    except_pure_eq_ok] at h
  obtain ⟨_, ⟨n, hn, rfl⟩, rfl⟩ := h
  exact ⟨n, hn, rfl, by simp⟩

/-- The binding that a reservation or an attachment stores. -/
def newBinding (space path assetId caller : Text) (mutable : Bool) (now : Time) : AliasBinding :=
  { space, aliasName := path, assetId := some assetId, mutable, previousAssetId := none
    createdAt := now, updatedAt := now, createdByServiceId := caller }

theorem bindNames_single {space pid id owner name : Text} {now : Time} {mutable : Bool} {u : Unit}
    (h : bindNames space pid id owner now [(name, mutable)] s = .ok u s') :
    ∃ path key, aliasUnderPartition pid name = .ok path ∧ qualifiedAlias space path = .ok key ∧
      s'.reg.aliases = s.reg.aliases.set key (newBinding space path id owner mutable now) ∧
      s'.reg.assets = s.reg.assets := by
  simp only [bindNames, bind_eq_ok, attempt_eq_ok, putBinding_eq_ok, audit_eq_ok, pure_eq_ok] at h
  obtain ⟨path, _, ⟨hscoped, rfl⟩, key, _, ⟨hkey, rfl⟩, _, _, rfl, _, _, rfl, -, rfl⟩ := h
  exact ⟨path, key, hscoped, hkey, rfl, rfl⟩

theorem auditReservation_keeps {id owner : Text} {γ : Type} {f : Registry → γ}
    (hf : ∀ r es, f { r with auditEvents := es } = f r) : ∀ reserved : Option Int,
    Keeps f (auditReservation id owner reserved)
  | none => Within.pure
  | some _ => Within.bind Within.utcnow fun _ => Within.updateTables fun _ => hf _ _

/-- A reservation under one name binds the path name, which was free, to the new asset. -/
theorem reserveAsset_single {newId name : Text} {mutable : Bool} {req : ReserveRequest} {a : Asset}
    (single : req.aliases = [(name, mutable)]) (h : reserveAsset env newId req s = .ok a s') :
    ∃ n path key now reading, now = s.clock reading ∧
      normalizeSpace req.space = .ok a.space ∧
        normalizePartitionId req.partitionId = .ok a.partitionId ∧
      normalizeRelativeAlias name = .ok n ∧ aliasUnderPartition a.partitionId n = .ok path ∧
      qualifiedAlias a.space path = .ok key ∧ s.reg.aliases.get key = none ∧
      s'.reg.aliases = s.reg.aliases.set key
        (newBinding a.space path newId req.ownerServiceId mutable now) ∧
      s'.reg.assets = s.reg.assets.set newId a ∧ a.assetId = newId ∧ a.aliases = {key} ∧
      a.state = .pending ∧ expiryFor env a.space req.ttlSeconds now = .ok a.expiresAt := by
  simp only [reserveAsset, single, bind_eq_ok, attempt_eq_ok] at h
  obtain ⟨space, _, ⟨hspace, rfl⟩, pid, _, ⟨hpid, rfl⟩, d, _, ⟨hd, rfl⟩, _, s1, hfree,
    _, s2, hadmit,
    now, s3, hnow, keys, _, ⟨hkeys, rfl⟩, storageKey, _, ⟨hstorage, rfl⟩, expiresAt, _,
    ⟨hexp, rfl⟩, _, s4, hput, _, s5, hbind, _, s6, haudit, hret⟩ := h
  obtain ⟨n, hn, hdkeys, hget⟩ := normalizeAliasSpecs_single hd
  rw [hdkeys] at hfree hkeys hbind
  simp only [List.map_cons, List.map_nil, hget, Option.getD_some] at hbind
  obtain ⟨path, key, hscoped, hkey, haliases, hassets⟩ := bindNames_single hbind
  obtain ⟨rfl, rfl⟩ := pure_eq_ok.mp hret
  have hkey' : scopedKey space pid n = .ok key := by
    simp [scopedKey, hscoped, hkey]
  have hfree' := (requireNamesAvailable_eq_ok hfree).2 n (by simp) key hkey'
  have hsame1 := (requireNamesAvailable_eq_ok hfree).1
  have hkeys' : keys = [key] := by
    simpa [hkey'] using hkeys.symm
  -- the steps between the check and the store leave the bindings and the assets alone
  -- so far, only clock readings were taken
  obtain ⟨k1, hclock1⟩ :=
    Within.ok (R := Later) (Within.requireNamesAvailable (fun _ _ => ⟨0, by simp⟩) _) hfree
  obtain ⟨k2, hclock2⟩ := Within.ok (R := Later) (Within.admitReservation _) hadmit
  have hreg2 : s2.reg = s1.reg := (Within.admitReservation (R := Same fun r => r) _).ok hadmit
  obtain ⟨hreading, rfl⟩ := utcnow_eq_ok.mp hnow
  have hnow' : now = s.clock (k1 + k2) := by rw [← hreading, hclock2, hclock1]; rfl
  have hbefore : s2.reg.aliases = s.reg.aliases ∧ s2.reg.assets = s.reg.assets := by
    rw [hreg2, ← hsame1]
    exact ⟨rfl, rfl⟩
  obtain rfl := putAsset_eq_ok.mp hput
  have hafter : s6.reg.aliases = s5.reg.aliases ∧ s6.reg.assets = s5.reg.assets :=
    ⟨(auditReservation_keeps (fun _ _ => rfl) _).ok haudit,
      (auditReservation_keeps (fun _ _ => rfl) _).ok haudit⟩
  refine ⟨n, path, key, now, k1 + k2, hnow', hspace, hpid, hn, hscoped, hkey, hfree', ?_, ?_, rfl,
    ?_, rfl, hexp⟩
  · rw [hafter.1, haliases, ← hbefore.1]
    rfl
  · rw [hafter.2, hassets, ← hbefore.2]
    rfl
  · simp [hkeys']

/-- The asset that a commit stores. -/
def committed (a : Asset) (size : Int) (checksum : Text) (mime : Option Text)
    (now : Time) : Asset :=
  { a with
    state := .available, sizeBytes := some size, reservedBytes := none, checksum := some checksum
    updatedAt := now, mime := if ∃ m ∈ mime, m ≠ [] then mime else a.mime }

theorem acquireQuota_keeps {space pid : Text} {n : Int} {γ : Type} {f : Registry → γ}
    (hf : ∀ r p b, f { r with partitionQuotas := p, bucketQuotas := b } = f r) :
    Keeps f (acquireQuota space pid n) :=
  Within.bind Within.partitionQuota fun _ =>
    Within.bind (Within.updateTables fun s => hf s.reg _ _) fun _ =>
      Within.bind Within.bucketQuota fun _ => Within.updateTables fun s => hf s.reg _ _

/-- A commit stores the committed asset and leaves the bindings alone. -/
theorem commitAsset_eq_ok {id checksum caller : Text} {size : Int} {mime expected : Option Text}
    {a' : Asset} (h : commitAsset env id size checksum caller mime expected s = .ok a' s') :
    ∃ a now, s.reg.assets.get id = some a ∧ a.state = .pending ∧
      a' = committed a size (stripSpace checksum) mime now ∧
      s'.reg.aliases = s.reg.aliases ∧ s'.reg.assets = s.reg.assets.set id a' := by
  simp only [commitAsset, bind_eq_ok, attempt_eq_ok, getAsset_eq_ok, utcnow_eq_ok, putAsset_eq_ok,
    audit_eq_ok, pure_eq_ok, raiseIf_eq_ok, ne_eq, not_not] at h
  obtain ⟨_, _, ⟨_, rfl⟩, _, _, ⟨_, rfl⟩, _, _, ⟨_, rfl⟩, a, _, ⟨get, rfl⟩, _, _,
    ⟨hstate, rfl⟩, _, _,
    ⟨_, rfl⟩, _, s1, henforce, _, _, ⟨rfl, rfl⟩, _, _, rfl, _, s2, hacquire, _, _, rfl, rfl, rfl⟩ :=
      h
  have hreg : s1.reg = s.reg := (Within.enforceQuota (R := Same fun r => r)).ok henforce
  have haliases := (acquireQuota_keeps (f := Registry.aliases) fun _ _ _ => rfl).ok hacquire
  have hassets := (acquireQuota_keeps (f := Registry.assets) fun _ _ _ => rfl).ok hacquire
  refine ⟨a, s1.clock 0, get, hstate, rfl, ?_, ?_⟩
  · rw [← hreg]
    exact haliases
  · rw [← hreg]
    exact hassets

end Upload

end AssetStore
