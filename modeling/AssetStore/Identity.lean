import AssetStore.Capability

/-! Service identities: the static secrets of the calling services, how they are read from the
environment, and how a caller is authenticated. -/

namespace AssetStore

open Lib

/-- `s.partition(sep)` for one character: the part before it, whether it is there, and the rest. -/
def partitionOn (sep : Char) (s : Text) : Text × Bool × Text :=
  match s.dropWhile (fun c => c ≠ sep) with
  | [] => (s, false, [])
  | _ :: rest => (s.takeWhile (fun c => c ≠ sep), true, rest)

/-- `s.lower()`, for a comparison with a word of ASCII letters other than `k`. -/
def lowerAscii (s : Text) : Text := s.map Char.toLower

/-! ### `service_identity.py` -/

/-- `KNOWN_SERVICE_IDS`. -/
def knownServiceIds : List Text :=
  (serviceReadBuckets.map Prod.fst ++ serviceWriteBuckets.map Prod.fst).dedup

/-- `dev_secret`. -/
def devSecret (serviceId : Text) : Text := "dev-secret:".toList ++ stripSpace serviceId

/-- A stored credential has an id and a secret. -/
def WellFormedSecrets (secrets : Dict Text Text) : Prop :=
  ∀ serviceId secret, secrets.get serviceId = some secret → serviceId ≠ [] ∧ secret ≠ []

/-- `ServiceCredentialStore`. -/
structure ServiceCredentialStore where
  secrets : Dict Text Text
  nonempty : secrets.keys ≠ []
  wellFormed : WellFormedSecrets secrets

/-- One entry of the credentials. -/
def cleanCredential (cleaned : Dict Text Text) (entry : Text × Text) :
    Except Err (Dict Text Text) := do
  let serviceId := stripSpace entry.1
  raiseIf (serviceId = []) { cls := .validation,
                             message := "service credential id must not be empty" }
  raiseIf (entry.2 = [])
    { cls := .validation, message := "service credential for %r must not be empty",
      args := [serviceId] }
  return cleaned.set serviceId entry.2

theorem cleanCredential_wellFormed {cleaned cleaned' : Dict Text Text} {entry : Text × Text}
    (h : WellFormedSecrets cleaned) (hstep : cleanCredential cleaned entry = .ok cleaned') :
    WellFormedSecrets cleaned' := by
  simp only [cleanCredential, except_bind_eq_ok, raiseIf_eq_ok, except_pure_eq_ok] at hstep
  obtain ⟨_, hid, _, hsecret, rfl⟩ := hstep
  intro serviceId secret hget
  rw [Dict.get_set] at hget
  split at hget
  · rename_i heq
    obtain rfl := Option.some.inj hget
    exact ⟨heq ▸ hid, hsecret⟩
  · exact h serviceId secret hget

/-- `ServiceCredentialStore.__init__`, from the items of a mapping. -/
def ServiceCredentialStore.create (credentials : List (Text × Text)) :
    Except Err ServiceCredentialStore :=
  match h : credentials.foldlM cleanCredential .empty with
  | .error e => .error e
  | .ok cleaned =>
    if hne : cleaned.keys = [] then
      .error { cls := .validation, message := "credential store must define at least one identity" }
    else .ok
      { secrets := cleaned, nonempty := hne
        wellFormed := foldlM_invariant (P := WellFormedSecrets) (fun _ _ hget => by cases hget)
          (fun _ _ _ => cleanCredential_wellFormed) h }

def invalidCredential : Err := { cls := .serviceAuth, message := "invalid service credential" }

/-- `authenticate`. -/
def ServiceCredentialStore.authenticate (store : ServiceCredentialStore) (serviceId secret : Text) :
    Except Err Text := do
  let candidate := stripSpace serviceId
  let expected := store.secrets.get candidate
  let ok := decide (expected.getD ['\x00'] = secret)
  raiseIf (expected = none ∨ ok = false) invalidCredential
  return candidate

/-- `dev_default`. -/
def ServiceCredentialStore.devDefault : Except Err ServiceCredentialStore :=
  create (knownServiceIds.map fun serviceId => (serviceId, devSecret serviceId))

/-- An entry `id:secret` of the environment variable; a blank one is skipped. -/
def readCredential (credentials : Dict Text Text) (entry : Text) : Except Err (Dict Text Text) := do
  let item := stripSpace entry
  if item = [] then return credentials
  let (serviceId, sep, secret) := partitionOn ':' item
  raiseIf (sep = false)
    { cls := .validation
      message := "invalid ASSET_STORE_SERVICE_CREDENTIALS entry; expected 'service_id:secret'" }
  return credentials.set (stripSpace serviceId) (stripSpace secret)

/-- `from_env`, with the values of `ASSET_STORE_SERVICE_CREDENTIALS` and `ASSET_STORE_DEV_MODE`. -/
def ServiceCredentialStore.fromEnv (raw devMode : Option Text) :
    Except Err ServiceCredentialStore :=
  if stripSpace (raw.getD []) = [] then
    if lowerAscii (devMode.getD []) ∈ ["1".toList, "true".toList, "yes".toList] then devDefault
    else .error
      { cls := .validation
        message :=
          "configure ASSET_STORE_SERVICE_CREDENTIALS or explicitly enable ASSET_STORE_DEV_MODE=1" }
  else do
    let credentials ← ((raw.getD []).splitOn ',').foldlM readCredential .empty
    create (credentials.keys.map fun serviceId => (serviceId, (credentials.get serviceId).getD []))

/-- Exactly the configured pairs are accepted. -/
theorem authenticate_eq_ok {store : ServiceCredentialStore} {serviceId secret who : Text} :
    store.authenticate serviceId secret = .ok who ↔
      stripSpace serviceId = who ∧ store.secrets.get who = some secret := by
  simp only [ServiceCredentialStore.authenticate, except_bind_eq_ok, raiseIf_eq_ok,
    except_pure_eq_ok]
  constructor
  · rintro ⟨_, hok, rfl⟩
    refine ⟨rfl, ?_⟩
    cases hget : store.secrets.get (stripSpace serviceId) with
    | none => simp [hget] at hok
    | some expected => simpa [hget] using hok
  · rintro ⟨rfl, hget⟩
    exact ⟨(), by simp [hget], rfl⟩

/-! ### The `Authorization` header -/

/-- `require_service_identity`: `Authorization: Service <id>:<secret>`. -/
def requireServiceIdentity (credentials : ServiceCredentialStore) (authorization : Text) :
    Except Err Text := do
  let (scheme, _, token) := partitionOn ' ' authorization
  raiseIf (lowerAscii scheme ≠ "service".toList ∨ stripSpace token = [])
    { cls := .serviceAuth, message := "missing service credential" }
  let (serviceId, sep, secret) := partitionOn ':' (stripSpace token)
  raiseIf (sep = false)
    { cls := .serviceAuth, message := "malformed service credential; expected 'service_id:secret'" }
  credentials.authenticate serviceId secret

/-- `require_admin`. -/
def requireAdmin (credentials : ServiceCredentialStore) (authorization : Text) :
    Except Err Text := do
  let caller ← requireServiceIdentity credentials authorization
  raiseIf (caller ≠ "admin".toList) { cls := .capabilityDenied,
                                      message := "admin identity required" }
  return caller

/-- `require_legacy_admin`, with the caller that the body of the request claims, if it claims
one. -/
def requireLegacyAdmin (credentials : ServiceCredentialStore) (authorization : Text)
    (claimed : Option Text) : Except Err Text := do
  let caller ← requireAdmin credentials authorization
  raiseIf (claimed.getD caller ≠ caller)
    { cls := .capabilityDenied, message := "caller identity must match admin credential" }
  return caller

/-- The id behind `Authorization: Capability <id>`. -/
def bearerToken (authorization : Text) : Except Err Text := do
  let (scheme, _, token) := partitionOn ' ' authorization
  raiseIf (lowerAscii scheme ≠ "capability".toList ∨ stripSpace token = [])
    { cls := .capabilityDenied, message := "missing capability credential" }
  return stripSpace token

theorem requireAdmin_eq_ok {credentials : ServiceCredentialStore} {authorization caller : Text} :
    requireAdmin credentials authorization = .ok caller ↔
      requireServiceIdentity credentials authorization = .ok caller ∧ caller = "admin".toList := by
  simp only [requireAdmin, except_bind_eq_ok, raiseIf_eq_ok, except_pure_eq_ok, ne_eq, not_not]
  constructor
  · rintro ⟨_, hcaller, _, hadmin, rfl⟩
    exact ⟨hcaller, hadmin⟩
  · rintro ⟨hcaller, hadmin⟩
    exact ⟨caller, hcaller, (), hadmin, rfl⟩

theorem requireLegacyAdmin_eq_ok {credentials : ServiceCredentialStore}
    {authorization caller : Text}
    {claimed : Option Text} : requireLegacyAdmin credentials authorization claimed = .ok caller ↔
      requireAdmin credentials authorization = .ok caller ∧ ∀ other ∈ claimed, other = caller := by
  simp only [requireLegacyAdmin, except_bind_eq_ok, raiseIf_eq_ok, except_pure_eq_ok,
    ne_eq, not_not]
  constructor
  · rintro ⟨_, hcaller, _, hclaimed, rfl⟩
    refine ⟨hcaller, fun other hother => ?_⟩
    rw [Option.mem_def.mp hother] at hclaimed
    exact hclaimed
  · rintro ⟨hcaller, hclaimed⟩
    refine ⟨caller, hcaller, (), ?_, rfl⟩
    cases claimed with
    | none => rfl
    | some other => exact hclaimed other rfl

end AssetStore
