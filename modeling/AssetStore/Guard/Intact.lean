import AssetStore.Guard
import AssetStore.Registry.States

/-! The registry and the object store together. Every live asset has its bytes, and every object
belongs to an asset whose payload has not been removed. -/

namespace AssetStore

open Lib Relation

/-- Where the bytes of a stored asset are. -/
def Asset.location (a : Asset) : ObjectStoreLocation := { bucket := a.space, key := a.storageKey }

/-- The asset can be read, or restored with its bytes. -/
def Asset.Live (a : Asset) : Prop := a.state = .available ∨ a.state = .expired ∧ a.sizeBytes ≠ none

/-- The characters of a UUID. -/
def Generated (id : Text) : Prop := id ≠ [] ∧ ∀ c ∈ id, c ∈ "0123456789abcdef-".toList

instance (id : Text) : Decidable (Generated id) :=
  haveI : Decidable (∀ c ∈ id, c ∈ "0123456789abcdef-".toList) := List.decidableBAll _ _
  instDecidableAnd

/-- The ids are generated, and each storage key is the one of its asset. -/
def Registry.Keyed (r : Registry) : Prop :=
  ∀ id a, r.assets.get id = some a → Generated id ∧
    buildStorageKey a.partitionId id = .ok a.storageKey

section Locations

variable {r : Registry} {id id' : Text} {a a' : Asset}

theorem Generated.noSpace (h : Generated id) : ∀ c ∈ id, isSpace c = false ∧ c ≠ '/' := by
  have hall : "0123456789abcdef-".toList.all (fun c => isSpace c = false ∧ c ≠ '/') = true := by
    decide +kernel
  exact fun c hc => of_decide_eq_true (List.all_eq_true.mp hall c (h.2 c hc))

theorem stripSpace_of_noSpace {t : Text} (h : ∀ c ∈ t, isSpace c = false) : stripSpace t = t := by
  unfold stripSpace strip
  rw [dropWhile_eq_self_of_forall h, rdropWhile_eq_self_of_forall h]

theorem Generated.storageKey {pid key : Text} (h : Generated id)
    (hkey : buildStorageKey pid id = .ok key) :
    ∃ dir, key = dir ++ '/' :: id := by
  simp only [buildStorageKey, except_bind_eq_ok, raiseIf_eq_ok, except_pure_eq_ok] at hkey
  obtain ⟨norm, -, _, -, rfl⟩ := hkey
  rw [stripSpace_of_noSpace fun c hc => (h.noSpace c hc).1]
  exact ⟨norm ++ "/assets".toList, by simp⟩

/-- The last segment of a path. -/
theorem rtakeWhile_path {dir : Text} (h : ∀ c ∈ id, c ≠ '/') :
    (dir ++ '/' :: id).rtakeWhile (· ≠ '/') = id := by
  rw [List.rtakeWhile, List.reverse_append, List.reverse_cons, List.append_assoc,
    List.takeWhile_append_of_pos (by simpa using fun c hc => h c hc)]
  simp

/-- Two assets do not share a location. -/
theorem Registry.Keyed.location_inj (h : r.Keyed) (get : r.assets.get id = some a)
    (get' : r.assets.get id' = some a') (same : a.location = a'.location) : id = id' := by
  obtain ⟨hgen, hkey⟩ := h id a get
  obtain ⟨hgen', hkey'⟩ := h id' a' get'
  obtain ⟨dir, hdir⟩ := hgen.storageKey hkey
  obtain ⟨dir', hdir'⟩ := hgen'.storageKey hkey'
  have hsame : dir ++ '/' :: id = dir' ++ '/' :: id' := by
    rw [← hdir, ← hdir']
    exact congrArg ObjectStoreLocation.key same
  have hlast := congrArg (List.rtakeWhile (· ≠ '/')) hsame
  rwa [rtakeWhile_path fun c hc => (hgen.noSpace c hc).2,
    rtakeWhile_path fun c hc => (hgen'.noSpace c hc).2] at hlast

end Locations

/-! ### Calls that neither commit nor maintain -/

/-- The call is not one of those that a locked block closes with. -/
def Op.Outside : Op → Prop
  | .commitAsset .. | .lifecycleUpdate .. => False
  | _ => True

/-- What such a call may do to a stored asset. -/
structure Steady (a a' : Asset) : Prop where
  space : a'.space = a.space
  partitionId : a'.partitionId = a.partitionId
  storageKey : a'.storageKey = a.storageKey
  sizeBytes : a'.sizeBytes = a.sizeBytes
  checksum : a'.checksum = a.checksum
  payloadDeletedAt : a'.payloadDeletedAt = a.payloadDeletedAt
  live : a'.Live → a.Live

section Calls

variable {env : Env} {clock : Nat → Time} {op : Op} {id : Text} {a a' : Asset} {r r' : Registry}

theorem Steady.refl (a : Asset) : Steady a a := ⟨rfl, rfl, rfl, rfl, rfl, rfl, fun h => h⟩

theorem Steady.trans {a'' : Asset} (h : Steady a a') (h' : Steady a' a'') : Steady a a'' where
  space := h'.space.trans h.space
  partitionId := h'.partitionId.trans h.partitionId
  storageKey := h'.storageKey.trans h.storageKey
  sizeBytes := h'.sizeBytes.trans h.sizeBytes
  checksum := h'.checksum.trans h.checksum
  payloadDeletedAt := h'.payloadDeletedAt.trans h.payloadDeletedAt
  live hlive := h.live (h'.live hlive)

theorem Steady.location (h : Steady a a') : a'.location = a.location := by
  rw [Asset.location, h.space, h.storageKey, Asset.location]

theorem Transition.steady {action : AuditAction} (h : Transition env clock id a op action a')
    (ha : Shaped a) (outside : op.Outside) : Steady a a' := by
  have moved : ∀ {state : AssetState} {updatedAt : Time} {expiresAt expiredAt : Option Time},
      ({ a with state, updatedAt, expiresAt, expiredAt }.Live → a.Live) →
      Steady a { a with state, updatedAt, expiresAt, expiredAt } :=
    fun hlive => ⟨rfl, rfl, rfl, rfl, rfl, rfl, hlive⟩
  cases h with
  | commit => exact outside.elim
  | expire before _ => exact moved fun _ => .inl before
  | orphan _ _ before _ =>
    refine moved fun hlive => ?_
    rcases before with hpending | havailable
    · rcases hlive with hstate | ⟨-, hsize⟩
      · cases hstate
      · exact (hsize (ha.pending hpending).1).elim
    · exact .inl havailable
  | delete => exact moved fun hlive => by rcases hlive with h | ⟨h, -⟩ <;> cases h
  | lapse => exact outside.elim
  | retire => exact outside.elim
  | purge => exact outside.elim
  | restore before committed _ =>
    exact moved fun _ => before.imp (fun h => h) fun h => ⟨h, committed.1⟩

theorem Touch.steady (h : Touch env clock id op a a') (ha : Shaped a) (outside : op.Outside) :
    Steady a a' := by
  cases h with
  | same => exact .refl a
  | note => exact ⟨rfl, rfl, rfl, rfl, rfl, rfl, fun h => h⟩
  | enlist => exact ⟨rfl, rfl, rfl, rfl, rfl, rfl, fun h => h⟩
  | delist => exact ⟨rfl, rfl, rfl, rfl, rfl, rfl, fun h => h⟩
  | move step => exact step.steady ha outside

/-- Along the changes of such a call the stored assets are steady, and new ones are not live. -/
theorem Changes.steady (h : Changes env clock op r r') (shaped : r.Shaped) (outside : op.Outside) :
    r'.Shaped ∧
      (∀ id a, r.assets.get id = some a → ∃ a', r'.assets.get id = some a' ∧ Steady a a') ∧
      ∀ id a', r'.assets.get id = some a' → (∃ a, r.assets.get id = some a ∧ Steady a a') ∨
        ∃ req, op = .reserveAsset id req ∧ ¬a'.Live ∧
          buildStorageKey a'.partitionId id = .ok a'.storageKey := by
  induction h with
  | refl =>
    exact ⟨shaped, fun id a get => ⟨a, get, .refl a⟩, fun id a get => .inl ⟨a, get, .refl a⟩⟩
  | tail _ hchange ih =>
    obtain ⟨hshaped, hkept, horigin⟩ := ih
    refine ⟨hshaped.change hchange, fun id a get => ?_, fun id a' get' => ?_⟩
    · obtain ⟨b, hb, hsteady⟩ := hkept id a get
      obtain ⟨a', get', htouch⟩ := hchange.touch hb
      exact ⟨a', get', hsteady.trans (htouch.steady (hshaped id b hb) outside)⟩
    · rcases hchange.origin get' with ⟨b, hb, htouch⟩ | ⟨req, hop, -, hnew, -⟩
      · have hlast := htouch.steady (hshaped id b hb) outside
        rcases horigin id b hb with ⟨a, get, hsteady⟩ | ⟨req, hop, hdead, hkey⟩
        · exact .inl ⟨a, get, hsteady.trans hlast⟩
        · refine .inr ⟨req, hop, fun hlive => hdead (hlast.live hlive), ?_⟩
          rw [hlast.partitionId, hlast.storageKey]
          exact hkey
      · refine .inr ⟨req, hop, fun hlive => ?_, hnew.storageKey⟩
        rcases hlive with hstate | ⟨hstate, -⟩ <;> cases hnew.state.symm.trans hstate

end Calls

/-! ### The two stores -/

/-- The object of a live asset is there, and is the one that was committed. -/
def Backed (env : Env) (store : ObjectStore) (a : Asset) : Prop :=
  ∃ data, store.get a.location = some data ∧ a.sizeBytes = some data.length ∧
    a.checksum = some (computeChecksum env data)

theorem computeChecksum_noSpace (env : Env) (data : List UInt8) :
    ∀ c ∈ computeChecksum env data, isSpace c = false := by
  have hdigit : ∀ d : Fin 16, isSpace (hexDigit d) = false := by decide +kernel
  have hprefix : "sha256:".toList.all (fun c => !isSpace c) = true := by decide +kernel
  intro c hc
  rcases List.mem_append.mp hc with hc | hc
  · simpa using List.all_eq_true.mp hprefix c hc
  · obtain ⟨d, -, rfl⟩ := List.mem_map.mp hc
    exact hdigit d

/-- The registry and the object store agree. -/
structure Intact (env : Env) (grace : Int) (r : Registry) (store : ObjectStore) : Prop where
  reached : ∃ calls, Runs env (Registry.initial grace) calls r
  keyed : r.Keyed
  live : ∀ id a, r.assets.get id = some a → a.Live → Backed env store a
  owned : ∀ location data, store.get location = some data →
    ∃ id a, r.assets.get id = some a ∧ a.location = location ∧ a.payloadDeletedAt = none

namespace Intact

variable {env : Env} {grace : Int} {r r' : Registry} {store : ObjectStore}
  {clock : Nat → Time} {op : Op}
  {id : Text} {a a' : Asset}

theorem initial : Intact env grace (Registry.initial grace) .empty where
  reached := ⟨[], .nil⟩
  keyed _ _ get := by cases get
  live _ _ get := by cases get
  owned _ _ get := by cases get

theorem shaped (h : Intact env grace r store) : r.Shaped := by
  obtain ⟨calls, hcalls⟩ := h.reached
  exact hcalls.shaped

theorem leads (h : Intact env grace r store) (hleads : Leads env r r') :
    ∃ calls, Runs env (Registry.initial grace) calls r' := by
  obtain ⟨calls, hcalls⟩ := h.reached
  obtain ⟨more, hmore⟩ := hleads
  exact ⟨_, hcalls.append hmore⟩

/-- A call that neither commits nor maintains. -/
theorem outside (h : Intact env grace r store) (fresh : op.Fresh r) (outside : op.Outside)
    (generated : ∀ newId req, op = .reserveAsset newId req → Generated newId) :
    Intact env grace (op.exec env clock r) store := by
  obtain ⟨calls, hcalls⟩ := h.reached
  have hchanges : Changes env clock op r (op.exec env clock r) :=
    Op.exec_changes hcalls.sound.1 hcalls.indexed fresh
  obtain ⟨-, hkept, horigin⟩ := Changes.steady hchanges h.shaped outside
  refine ⟨⟨_, hcalls.snoc fresh⟩, fun id a' get' => ?_, fun id a' get' hlive => ?_,
    fun location data hdata => ?_⟩
  · rcases horigin id a' get' with ⟨a, get, hsteady⟩ | ⟨req, hop, -, hkey⟩
    · rw [hsteady.partitionId, hsteady.storageKey]
      exact h.keyed id a get
    · exact ⟨generated id req hop, hkey⟩
  · rcases horigin id a' get' with ⟨a, get, hsteady⟩ | ⟨_, -, hdead, -⟩
    · obtain ⟨data, hdata, hsize, hchecksum⟩ := h.live id a get (hsteady.live hlive)
      exact ⟨data, hsteady.location ▸ hdata, hsteady.sizeBytes.trans hsize,
        hsteady.checksum.trans hchecksum⟩
    · exact (hdead hlive).elim
  · obtain ⟨id, a, get, hlocation, hpayload⟩ := h.owned location data hdata
    obtain ⟨a', get', hsteady⟩ := hkept id a get
    exact ⟨id, a', get', hsteady.location.trans hlocation, hsteady.payloadDeletedAt.trans hpayload⟩

/-- One asset is replaced. -/
theorem replace (h : Intact env grace r store) (get : r.assets.get id = some a)
    (assets : r'.assets = r.assets.set id a') (reached : Leads env r r')
    (place : a'.space = a.space ∧ a'.partitionId = a.partitionId ∧ a'.storageKey = a.storageKey)
    (live : a'.Live → Backed env store a')
    (owned : ∀ data, store.get a.location = some data → a.payloadDeletedAt = none →
      a'.payloadDeletedAt = none) : Intact env grace r' store := by
  have hlocation : a'.location = a.location := by
    rw [Asset.location, place.1, place.2.2, Asset.location]
  have cases_get : ∀ {i : Text} {c : Asset}, r'.assets.get i = some c →
      i = id ∧ c = a' ∨ i ≠ id ∧ r.assets.get i = some c := by
    intro i c hc
    rw [assets] at hc
    by_cases hi : i = id
    · subst hi
      exact .inl ⟨rfl, Option.some.inj (hc.symm.trans (Dict.get_set_self _ _ _))⟩
    · exact .inr ⟨hi, (Dict.get_set_ne _ _ hi).symm.trans hc⟩
  refine ⟨h.leads reached, fun i c hc => ?_, fun i c hc hlive => ?_, fun location data hdata => ?_⟩
  · rcases cases_get hc with ⟨rfl, rfl⟩ | ⟨-, hget⟩
    · rw [place.2.1, place.2.2]
      exact h.keyed i a get
    · exact h.keyed i c hget
  · rcases cases_get hc with ⟨rfl, rfl⟩ | ⟨-, hget⟩
    · exact live hlive
    · exact h.live i c hget hlive
  · obtain ⟨i, c, hget, hloc, hpayload⟩ := h.owned location data hdata
    by_cases hi : i = id
    · subst hi
      obtain rfl : c = a := Option.some.inj (hget.symm.trans get)
      refine ⟨i,
        a', by rw [assets, Dict.get_set_self], hlocation.trans hloc, owned data ?_ hpayload⟩
      rw [hloc, hdata]
    · exact ⟨i, c, by rw [assets, Dict.get_set_ne _ _ hi, hget], hloc, hpayload⟩

/-- The other assets keep their objects when the object of one asset changes. -/
theorem store_other (h : Intact env grace r store) (get : r.assets.get id = some a)
    (dead : ¬a.Live) {store' : ObjectStore}
    (others : ∀ location, location ≠ a.location → store'.get location = store.get location) :
    ∀ i c, r.assets.get i = some c → c.Live → Backed env store' c := by
  intro i c hc hlive
  have hne : c.location ≠ a.location := by
    intro heq
    obtain rfl := h.keyed.location_inj hc get heq
    obtain rfl : c = a := Option.some.inj (hc.symm.trans get)
    exact dead hlive
  obtain ⟨data, hdata, hrest⟩ := h.live i c hc hlive
  exact ⟨data, (others _ hne).trans hdata, hrest⟩

/-- An object is stored for an asset that is not live. -/
theorem put (h : Intact env grace r store) (get : r.assets.get id = some a) (dead : ¬a.Live)
    (unpurged : a.payloadDeletedAt = none) (data : List UInt8) :
    Intact env grace r (store.set a.location data) where
  reached := h.reached
  keyed := h.keyed
  live := h.store_other get dead fun _ hne => Dict.get_set_ne _ _ hne
  owned location data' hdata := by
    by_cases hloc : location = a.location
    · exact ⟨id, a, get, hloc.symm, unpurged⟩
    · rw [Dict.get_set_ne _ _ hloc] at hdata
      exact h.owned location data' hdata

/-- The object of an asset that is not live is removed. -/
theorem erase (h : Intact env grace r store) (get : r.assets.get id = some a) (dead : ¬a.Live) :
    Intact env grace r (store.erase a.location) where
  reached := h.reached
  keyed := h.keyed
  live := h.store_other get dead fun _ hne => Dict.get_erase_ne _ hne
  owned location data hdata := by
    by_cases hloc : location = a.location
    · rw [hloc, Dict.get_erase_self] at hdata
      cases hdata
    · rw [Dict.get_erase_ne _ hloc] at hdata
      exact h.owned location data hdata

/-- A maintenance update. The payload is marked as removed only when the object is gone. -/
theorem update (h : Intact env grace r store) {state : AssetState} {now : Time} {reason : Text}
    {purge : Bool} {s' : Session} (run :
      lifecycleUpdate a state now reason purge ⟨r, clock⟩ = .ok a' s')
    (emptied : purge = true → store.get a.location = none) :
    Intact env grace s'.reg store ∧ Leads env r s'.reg := by
  obtain ⟨get, hallowed, rfl, hassets⟩ := lifecycleUpdate_ok run
  have hleads : Leads env r s'.reg := by
    have hexec : (Op.lifecycleUpdate a state now reason purge).exec env clock r = s'.reg := by
      simp only [Op.exec, Op.run, final_bind_pure, run, final_ok]
    rw [← hexec]
    exact .call trivial
  refine ⟨h.replace get hassets hleads ⟨rfl, rfl, rfl⟩
    (fun hlive => ?_) fun data hdata hpayload => ?_, hleads⟩
  · rcases (validateCleanupTransition_eq_ok.mp hallowed).1 with ⟨rfl, hstate, -⟩ | ⟨rfl, -, -⟩
    · exact h.live _ a get (.inl hstate)
    · rcases hlive with hx | ⟨hx, -⟩ <;> cases hx
  · cases purge with
    | false => exact hpayload
    | true => cases (emptied rfl).symm.trans hdata

/-- A commit of the bytes that are stored. -/
theorem commit (h : Intact env grace r store) {size : Int} {checksum caller : Text}
    {mime expected : Option Text} {s' : Session} {data : List UInt8}
    (get : r.assets.get id = some a)
    (run : commitAsset env id size checksum caller mime expected ⟨r, clock⟩ = .ok a' s')
    (stored : store.get a.location = some data) (stat : statOf env data = ⟨size, checksum⟩) :
    Intact env grace s'.reg store ∧ Leads env r s'.reg := by
  obtain ⟨c, now, hget, hpending, rfl, -, hassets⟩ := commitAsset_eq_ok run
  obtain rfl : c = a := Option.some.inj (hget.symm.trans get)
  obtain ⟨rfl, rfl⟩ := StoredObjectStat.mk.inj stat
  have hleads : Leads env r s'.reg := by
    have hexec :
        (Op.commitAsset id data.length (computeChecksum env data) caller mime expected).exec env
        clock r = s'.reg := by
      simp only [Op.exec, Op.run, final_bind_pure, run, final_ok]
    rw [← hexec]
    exact .call trivial
  have hpayload : c.payloadDeletedAt = none := ((h.shaped id c get).pending hpending).2.2.2
  refine ⟨h.replace get hassets hleads ⟨rfl, rfl, rfl⟩ (fun _ => ?_) fun _ _ _ => hpayload, hleads⟩
  exact ⟨data, stored, rfl, congrArg some
    (stripSpace_of_noSpace (computeChecksum_noSpace env data))⟩

end Intact

end AssetStore
