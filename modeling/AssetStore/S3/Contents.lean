import AssetStore.Lib.Lockstep
import AssetStore.S3.Multipart

/-! The adapter as an object store. The service mirrors a `LocalObjectStore`: it has the same
payloads at the same locations, each with its checksum or none in the metadata. A call of the
adapter answers as that store does and leaves a service that mirrors what the store has become, or a
request has failed, and then the stored objects are as before. -/

namespace AssetStore

open Lib

/-! ### The calls -/

/-- The calls of `ObjectStoreBackend` that keep bytes. -/
inductive ObjectCall : Type → Type 1
  | putObject (location : ObjectStoreLocation) (data : List UInt8) : ObjectCall StoredObjectStat
  | getObject (location : ObjectStoreLocation) : ObjectCall (List UInt8)
  | statObject (location : ObjectStoreLocation) : ObjectCall (Option StoredObjectStat)
  | deleteObject (location : ObjectStoreLocation) : ObjectCall Unit

/-- The call of a `LocalObjectStore`, as the guard makes it. -/
def ObjectCall.inMemory {β : Type} (env : Env) : ObjectCall β → GuardM β
  | .putObject location data => Cmd.sem _ (.putObject env location data)
  | .getObject location => Cmd.sem _ (.getObject location)
  | .statObject location => Cmd.sem _ (.statObject env location)
  | .deleteObject location => Cmd.sem _ (.deleteObject location)

/-- The call of the adapter. -/
def S3ObjectStore.perform {β : Type} (store : S3ObjectStore) (env : Env) : ObjectCall β → S3M β
  | .putObject location data => store.putObject env location data
  | .getObject location => store.getObject location
  | .statObject location => store.statObject env location
  | .deleteObject location => store.deleteObject location

/-- A call, whatever it returns. -/
abbrev AnyObjectCall := Σ β : Type, ObjectCall β

/-- The adapter after calls, of which some may have raised. -/
def S3ObjectStore.after (store : S3ObjectStore) (env : Env) (s : S3State)
    (calls : List AnyObjectCall) :
    S3State :=
  calls.foldl (fun s c => final (store.perform env c.2 s)) s

/-- The guard's state after the same calls of a `LocalObjectStore`. -/
def localAfter (env : Env) (g : GuardState) (calls : List AnyObjectCall) : GuardState :=
  calls.foldl (fun g c => final (c.2.inMemory env g)) g

/-! ### The mirrored store -/

/-- The object holds the payload, and no other checksum than that of the payload. -/
structure HoldsPayload (env : Env) (payload : List UInt8) (object : S3Object) : Prop where
  body : object.body = payload
  checksum : ∀ checksum, object.metadata.get checksumMetaKey = some checksum →
    checksum = computeChecksum env payload

/-- The service has the payloads of the store, at the same locations. -/
def Mirrors (env : Env) (objects : Dict ObjectStoreLocation S3Object)
    (contents : ObjectStore) : Prop :=
  ∀ location, Option.Rel (HoldsPayload env) (contents.get location) (objects.get location)

/-- The error says that there is no such object. -/
def S3Error.SaysAbsent : S3Error → Prop
  | .client code status => isNotFound code status = true
  | .objectNotFound _ => True
  | .other _ => False

/-- A read that fails does not fail with the answer for an object that is not there. -/
def S3Service.Honest (service : S3Service) : Prop :=
  ∀ location e, service.Fails (.getObject location) e ∨ service.Fails (.headObject location) e →
    ¬e.SaysAbsent

/-- Both raise `ObjectNotFoundError` with the text `bucket/key`. -/
def BothAbsent (e : S3Error) (e' : Err) : Prop :=
  ∃ location : ObjectStoreLocation,
    e = .objectNotFound (location.bucket ++ '/' :: location.key) ∧
    e' = { cls := .objectNotFound, message := "%s/%s", args := [location.bucket, location.key] }

/-- The adapter and the store return the same or raise `ObjectNotFoundError` both, and the service
mirrors the store again. -/
def LikeLocal {β : Type} (env : Env) :
    EStateM.Result S3Error S3State β → EStateM.Result Err GuardState β → Prop :=
  Agree (fun a b s g => a = b ∧ Mirrors env s.objects g.store)
    (fun e e' s g => BothAbsent e e' ∧ Mirrors env s.objects g.store)

/-- A request has failed, the adapter raises, and the stored objects are those of `s`. -/
def RequestFailed {β : Type} (service : S3Service) (s : S3State)
    (result : EStateM.Result S3Error S3State β) :
    Prop :=
  (∃ r e, service.Fails r e) ∧ ∃ e s', result = .error e s' ∧ s'.objects = s.objects

/-! ### One call -/

section Call

variable {store : S3ObjectStore} {env : Env} {location : ObjectStoreLocation} {s : S3State}
  {g : GuardState}

theorem holds_stored (payload : List UInt8) :
    HoldsPayload env payload { body := payload,
                               metadata := S3ObjectStore.checksumMetadata env payload } := by
  refine ⟨rfl, fun checksum hchecksum => ?_⟩
  have hset : (S3ObjectStore.checksumMetadata env payload).get checksumMetaKey =
      some (computeChecksum env payload) := Dict.get_set_self _ _ _
  exact Option.some.inj (hchecksum.symm.trans hset)

theorem Mirrors.set {objects : Dict ObjectStoreLocation S3Object} {contents : ObjectStore}
    (h : Mirrors env objects contents) {payload : List UInt8} {object : S3Object}
    (hholds : HoldsPayload env payload object) :
    Mirrors env (objects.set location object) (contents.set location payload) := by
  intro l
  rw [Dict.get_set, Dict.get_set]
  split
  · exact .some hholds
  · exact h l

theorem Mirrors.erase {objects : Dict ObjectStoreLocation S3Object} {contents : ObjectStore}
    (h : Mirrors env objects contents) :
    Mirrors env (objects.erase location) (contents.erase location) := by
  intro l
  rw [Dict.get_erase, Dict.get_erase]
  split
  · exact .none
  · exact h l

/-- A put stores the payload, or it raises and the objects are as before. -/
theorem putObject_call (hthreshold : 0 < store.multipartThreshold) (hsize : 0 < store.partSize)
    (h : Mirrors env s.objects g.store) (payload : List UInt8) :
    LikeLocal env (store.putObject env location payload s)
        ((ObjectCall.putObject location payload).inMemory env g) ∨
      RequestFailed store.service s (store.putObject env location payload s) := by
  have hlike :
      LikeSinglePut store env location payload s (store.putObject env location payload s) := by
    by_cases hlarge : store.multipartThreshold ≤ payload.length
    · exact putObject_multipart hthreshold hlarge hsize s
    · exact putObject_below hlarge hsize s
  cases hput : store.putObject env location payload s with
  | ok stat s' =>
    obtain ⟨-, rfl, hobjects⟩ := hlike.returned stat s' hput
    refine .inl (.returned ⟨rfl, ?_⟩)
    rw [hobjects]
    exact h.set (holds_stored payload)
  | error e s' =>
    refine .inr ⟨?_, e, s', rfl, hlike.raised e s' hput⟩
    by_contra hnone
    have hquiet : ∀ journal r, store.service.fails journal r = none := by
      intro journal r
      by_contra hsome
      obtain ⟨e', he'⟩ := Option.ne_none_iff_exists'.mp hsome
      exact hnone ⟨r, e', journal, he'⟩
    obtain ⟨s'', hreturns⟩ :=
      @putObject_returns store env location payload hthreshold hsize hquiet s
    cases hput.symm.trans hreturns

/-- What a read of the service comes to: the object, the answer that there is none, or a failure. -/
theorem read_cases (r : S3Request) (absent : S3Error) (s : S3State) :
    let read : S3M S3Object := store.service.request r fun t => do
      let object ← someOr (t.objects.get location) absent
      return (object, t)
    (∃ object s', s.objects.get location = some object ∧ read s = .ok object s' ∧
        s'.objects = s.objects) ∨
      (∃ s', s.objects.get location = none ∧ read s = .error absent s' ∧ s'.objects = s.objects) ∨
      ∃ e s', store.service.Fails r e ∧ read s = .error e s' ∧ s'.objects = s.objects := by
  intro read
  cases hfails : store.service.fails s.journal r with
  | some e =>
    exact .inr (.inr ⟨e, _, ⟨_, hfails⟩,
      S3Service.request_eq_error.mpr ⟨by rw [hfails]; rfl, rfl⟩, rfl⟩)
  | none =>
    cases hobject : s.objects.get location with
    | some object =>
      exact .inl ⟨object, _, rfl,
        S3Service.request_eq_ok.mpr ⟨hfails, _, by rw [hobject]; rfl, rfl⟩, rfl⟩
    | none =>
      exact .inr (.inl ⟨_, rfl,
        S3Service.request_eq_error.mpr ⟨by rw [hfails, hobject]; rfl, rfl⟩, rfl⟩)

/-- The handler of a failed read raises another error than `ObjectNotFoundError`. -/
theorem not_absent_cases {e : S3Error} (h : ¬e.SaysAbsent) :
    (∃ code status, e = .client code status ∧ isNotFound code status = false) ∨
      ∃ message, e = .other message := by
  cases e with
  | client code status => exact .inl ⟨code, status, rfl, Bool.eq_false_iff.mpr h⟩
  | objectNotFound message => exact absurd trivial h
  | other message => exact .inr ⟨message, rfl⟩

/-- What `get_object` comes to. -/
theorem getObject_cases (hhonest : store.service.Honest) (s : S3State) :
    (∃ object s', s.objects.get location = some object ∧
        store.getObject location s = .ok object.body s' ∧ s'.objects = s.objects) ∨
      (∃ s', s.objects.get location = none ∧
        store.getObject location s =
          .error (.objectNotFound (location.bucket ++ '/' :: location.key)) s' ∧
        s'.objects = s.objects) ∨
      RequestFailed store.service s (store.getObject location s) := by
  rcases read_cases (.getObject location) (.client "NoSuchKey".toList 404) s with
    ⟨object, s', hobject, hread, hobjects⟩ | ⟨s', hobject, hread, hobjects⟩ |
      ⟨e, s', hfails, hread, hobjects⟩
  · refine .inl ⟨object, s', hobject, tryCatch_of_ok ?_, hobjects⟩
    exact bind_of_ok hread
  · refine .inr (.inl ⟨s', hobject, ?_, hobjects⟩)
    exact tryCatch_of_error (bind_of_error hread)
  · refine .inr (.inr ⟨⟨_, e, hfails⟩, e, s', ?_, hobjects⟩)
    rcases not_absent_cases (hhonest location e (.inl hfails)) with
      ⟨code, status, rfl, hnot⟩ | ⟨message, rfl⟩
    · have hraise : store.getObject location s = .error (if isNotFound code status then
          .objectNotFound (location.bucket ++ '/' :: location.key) else .client code status) s' :=
        tryCatch_of_error (bind_of_error hread)
      rw [hraise, hnot]
      rfl
    · exact tryCatch_of_error (bind_of_error hread)

/-- What the request of `stat_object` for the head comes to, once the answer that there is no object
has been caught. -/
theorem head_cases (hhonest : store.service.Honest) (s : S3State) :
    let head : S3M (Option S3Object) := tryCatch (do
      let object ← store.service.headObject location
      return some object) fun e =>
      match e with
      | .client code status => if isNotFound code status then return none else throw e
      | e => throw e
    (∃ s', head s = .ok (s.objects.get location) s' ∧ s'.objects = s.objects) ∨
      RequestFailed store.service s (head s) := by
  intro head
  rcases read_cases (.headObject location) (.client "404".toList 404) s with
    ⟨object, s', hobject, hread, hobjects⟩ | ⟨s', hobject, hread, hobjects⟩ |
      ⟨e, s', hfails, hread, hobjects⟩
  · refine .inl ⟨s', ?_, hobjects⟩
    rw [hobject]
    exact tryCatch_of_ok (bind_of_ok hread)
  · refine .inl ⟨s', ?_, hobjects⟩
    rw [hobject]
    exact tryCatch_of_error (bind_of_error hread)
  · refine .inr ⟨⟨_, e, hfails⟩, e, s', ?_, hobjects⟩
    rcases not_absent_cases (hhonest location e (.inr hfails)) with
      ⟨code, status, rfl, hnot⟩ | ⟨message, rfl⟩
    · have hraise : head s = (if isNotFound code status then pure none
          else throw (.client code status) : S3M (Option S3Object)) s' :=
        tryCatch_of_error (bind_of_error hread)
      rw [hraise, hnot]
      rfl
    · exact tryCatch_of_error (bind_of_error hread)

/-- A read answers with the payload that the store has at the location. -/
theorem getObject_call (hhonest : store.service.Honest) (h : Mirrors env s.objects g.store) :
    LikeLocal env (store.getObject location s) ((ObjectCall.getObject location).inMemory env g) ∨
      RequestFailed store.service s (store.getObject location s) := by
  have hloc := h location
  change LikeLocal env _ (getStored location g) ∨ _
  rcases @getObject_cases store location hhonest s with
    ⟨object, s', hobject, hget, hobjects⟩ | ⟨s', hobject, hget, hobjects⟩ | hfailed
  · rw [hobject] at hloc
    cases hcontents : g.store.get location with
    | none =>
      rw [hcontents] at hloc
      cases hloc
    | some payload =>
      rw [hcontents] at hloc
      cases hloc with
      | some hholds =>
        rw [hget, getStored, hcontents]
        exact .inl (.returned ⟨hholds.body, hobjects ▸ h⟩)
  · rw [hobject] at hloc
    cases hcontents : g.store.get location with
    | some payload =>
      rw [hcontents] at hloc
      cases hloc
    | none =>
      rw [hget, getStored, hcontents]
      exact .inl (.raised ⟨⟨location, rfl, rfl⟩, hobjects ▸ h⟩)
  · exact .inr hfailed

/-- The size and the checksum are those of the payload, also where the checksum is computed. -/
theorem statObject_call (hhonest : store.service.Honest) (h : Mirrors env s.objects g.store) :
    LikeLocal env (store.statObject env location s)
      ((ObjectCall.statObject location).inMemory env g) ∨
      RequestFailed store.service s (store.statObject env location s) := by
  have hloc := h location
  change LikeLocal env _ (.ok ((g.store.get location).map (statOf env)) g) ∨ _
  rcases @head_cases store location hhonest s with
    ⟨s1, hhead, hobjects⟩ | ⟨hfails, e, s1, hhead, hobjects⟩
  · have hstat : store.statObject env location s = _ := bind_of_ok hhead
    rw [hstat]
    cases hobject : s.objects.get location with
    | none =>
      rw [hobject] at hloc
      cases hcontents : g.store.get location with
      | some payload =>
        rw [hcontents] at hloc
        cases hloc
      | none => exact .inl (.returned ⟨rfl, hobjects ▸ h⟩)
    | some object =>
      rw [hobject] at hloc
      cases hcontents : g.store.get location with
      | none =>
        rw [hcontents] at hloc
        cases hloc
      | some payload =>
        rw [hcontents] at hloc
        cases hloc with
        | some hholds =>
          cases hmeta : object.metadata.get checksumMetaKey with
          | some checksum =>
            simp only [hmeta]
            refine .inl (.returned ⟨?_, hobjects ▸ h⟩)
            rw [hholds.body, hholds.checksum checksum hmeta]
            rfl
          | none =>
            simp only [hmeta]
            -- the object was written elsewhere: it is read once more
            rcases @getObject_cases store location hhonest s1 with
              ⟨again, s2, hagain, hget, hobjects2⟩ | ⟨s2, hnone, -, -⟩ |
                ⟨hfails, e, s2, hget, hobjects2⟩
            · rw [hobjects, hobject] at hagain
              cases hagain
              rw [bind_of_ok hget]
              refine .inl (.returned ⟨?_, (hobjects2.trans hobjects) ▸ h⟩)
              rw [hholds.body]
              rfl
            · rw [hobjects, hobject] at hnone
              cases hnone
            · rw [bind_of_error hget]
              exact .inr ⟨hfails, e, s2, rfl, hobjects2.trans hobjects⟩
  · have hstat : store.statObject env location s = .error e s1 := bind_of_error hhead
    exact .inr ⟨hfails, e, s1, hstat, hobjects⟩

theorem deleteObject_call (h : Mirrors env s.objects g.store) :
    LikeLocal env (store.deleteObject location s)
      ((ObjectCall.deleteObject location).inMemory env g) ∨
      RequestFailed store.service s (store.deleteObject location s) := by
  rcases @S3Service.request_cases store.service _ (.deleteObject location)
      (fun t => .ok ((), { t with objects := t.objects.erase location })) s _ _ rfl with
    hok | ⟨e, hfails, herror⟩
  · refine .inl ?_
    rw [S3ObjectStore.deleteObject, S3Service.deleteObject, hok]
    exact .returned ⟨rfl, h.erase⟩
  · exact .inr ⟨⟨_, e, hfails⟩, e, _, herror, rfl⟩

/-- A call of the adapter against the same call of the store that its service mirrors. -/
theorem perform_like_local {β : Type} (hthreshold : 0 < store.multipartThreshold)
    (hsize : 0 < store.partSize) (hhonest : store.service.Honest) (c : ObjectCall β)
    (h : Mirrors env s.objects g.store) :
    LikeLocal env (store.perform env c s) (c.inMemory env g) ∨
      RequestFailed store.service s (store.perform env c s) := by
  cases c with
  | putObject location payload => exact putObject_call hthreshold hsize h payload
  | getObject location => exact getObject_call hhonest h
  | statObject location => exact statObject_call hhonest h
  | deleteObject location => exact deleteObject_call h

theorem LikeLocal.mirrors {β : Type} {x : EStateM.Result S3Error S3State β}
    {y : EStateM.Result Err GuardState β} (h : LikeLocal env x y) :
    Mirrors env (final x).objects (final y).store := by
  cases h with
  | returned h => exact h.2
  | raised h => exact h.2

end Call

/-! ### Runs -/

/-- After any calls the service mirrors a store in memory that took those of them for which no
request failed. -/
theorem after_mirrors {store : S3ObjectStore} {env : Env}
    (hthreshold : 0 < store.multipartThreshold)
    (hsize : 0 < store.partSize) (hhonest : store.service.Honest) :
    ∀ (calls : List AnyObjectCall) (s : S3State) (g : GuardState), Mirrors env s.objects g.store →
      ∃ served, served.Sublist calls ∧
        Mirrors env (store.after env s calls).objects (localAfter env g served).store
  | [], s, g, h => ⟨[], .slnil, h⟩
  | c :: calls, s, g, h => by
    rcases perform_like_local hthreshold hsize hhonest c.2 h with
      hlike | ⟨-, e, s', hraise, hobjects⟩
    · obtain ⟨served, hserved, hmirrors⟩ :=
        after_mirrors hthreshold hsize hhonest calls _ _ hlike.mirrors
      exact ⟨c :: served, hserved.cons_cons c, hmirrors⟩
    · have hkept : Mirrors env (final (store.perform env c.2 s)).objects g.store := by
        rw [hraise]
        exact hobjects ▸ h
      obtain ⟨served, hserved, hmirrors⟩ := after_mirrors hthreshold hsize hhonest calls _ g hkept
      exact ⟨served, hserved.cons c, hmirrors⟩

/-- Where no request fails, the service mirrors a store in memory that took all the calls. -/
theorem after_mirrors_quiet {store : S3ObjectStore} {env : Env}
    (hthreshold : 0 < store.multipartThreshold) (hsize : 0 < store.partSize)
    (hquiet : ∀ r e, ¬store.service.Fails r e) :
    ∀ (calls : List AnyObjectCall) (s : S3State) (g : GuardState), Mirrors env s.objects g.store →
      Mirrors env (store.after env s calls).objects (localAfter env g calls).store
  | [], _, _, h => h
  | c :: calls, s, g, h => by
    have hhonest : store.service.Honest := fun _ e hfails =>
      (hfails.elim (hquiet _ e) (hquiet _ e)).elim
    rcases perform_like_local hthreshold hsize hhonest c.2 h with hlike | ⟨⟨r, e, hfails⟩, -⟩
    · exact after_mirrors_quiet hthreshold hsize hquiet calls _ _ hlike.mirrors
    · exact absurd hfails (hquiet r e)

/-- The adapter is as good as a `LocalObjectStore`. Whatever calls it has taken, some of them
refused, it answers the next one as a store in memory does that took the calls that were not
refused; or a request fails, and nothing has changed. -/
theorem s3_like_local (store : S3ObjectStore) (env : Env)
    (hthreshold : 0 < store.multipartThreshold)
    (hsize : 0 < store.partSize) (hhonest : store.service.Honest) (s : S3State) (g : GuardState)
    (h : Mirrors env s.objects g.store) (calls : List AnyObjectCall) {β : Type} (c : ObjectCall β) :
    ∃ served, served.Sublist calls ∧
      (LikeLocal env (store.perform env c (store.after env s calls))
          (c.inMemory env (localAfter env g served)) ∨
        RequestFailed store.service (store.after env s calls)
          (store.perform env c (store.after env s calls))) := by
  obtain ⟨served, hserved, hmirrors⟩ := after_mirrors hthreshold hsize hhonest calls s g h
  exact ⟨served, hserved, perform_like_local hthreshold hsize hhonest c hmirrors⟩

end AssetStore
