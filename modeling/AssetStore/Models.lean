import AssetStore.Lib.Dict
import AssetStore.Paths
import Mathlib.Data.Finmap
import Mathlib.Data.Rat.Defs
import Mathlib.Algebra.Order.Ring.Rat

/-! The records of the registry, the process environment that it reads, and the retention rules:
deadlines, read eligibility, maintenance transitions and the physical capacity gate. -/

namespace AssetStore

open Lib

/-- A timezone-aware instant, in microseconds since the epoch. -/
abbrev Time := Int

/-- A mapping from strings to strings, compared as a mapping. -/
abbrev Mapping := Finmap fun _ : Text => Text

/-- The mapping that a dictionary display builds. -/
def mapping (entries : List (Text × Text)) : Mapping :=
  (entries.map fun e => (⟨e.1, e.2⟩ : Sigma fun _ : Text => Text)).toFinmap

/-! ### What `str` renders -/

def showInt (n : Int) : Text := (toString n).toList

def showOptionInt : Option Int → Text
  | none => "None".toList
  | some n => showInt n

def showBool (b : Bool) : Text := (if b then "True" else "False").toList

/-- `str(b).lower()`. -/
def showLower (b : Bool) : Text := (if b then "true" else "false").toList

/-- Decimal digits, padded with zeros to the given width. -/
def padded (width : Nat) (n : Int) : Text :=
  let digits := showInt n
  List.replicate (width - digits.length) '0' ++ digits

/-- `str` of an aware UTC instant, by the civil calendar. -/
def showTime (t : Time) : Text :=
  let z := t / 86400000000 + 719468
  let era := z / 146097
  let doe := z % 146097
  let yoe := (doe - doe / 1460 + doe / 36524 - doe / 146096) / 365
  let doy := doe - (365 * yoe + yoe / 4 - yoe / 100)
  let mp := (5 * doy + 2) / 153
  let day := doy - (153 * mp + 2) / 5 + 1
  let month := if mp < 10 then mp + 3 else mp - 9
  let year := yoe + era * 400 + if month ≤ 2 then 1 else 0
  let rest := t % 86400000000
  let micro := rest % 1000000
  let second := rest / 1000000
  padded 4 year ++ '-' :: padded 2 month ++ '-' :: padded 2 day ++ ' ' ::
    padded 2 (second / 3600) ++
    ':' :: padded 2 (second / 60 % 60) ++ ':' :: padded 2 (second % 60) ++
    (if micro = 0 then [] else '.' :: padded 6 micro) ++ "+00:00".toList

def showOptionTime : Option Time → Text
  | none => "None".toList
  | some t => showTime t

/-! ### `models.py` -/

/-- Lifecycle states. -/
inductive AssetState
  | pending
  | available
  | expired
  | deleted
  deriving DecidableEq, Repr

def AssetState.value : AssetState → Text
  | .pending => "pending".toList
  | .available => "available".toList
  | .expired => "expired".toList
  | .deleted => "deleted".toList

/-- Whether capacity and quota sweeps may evict an asset. -/
inductive EvictionPolicy
  | inherit
  | exempt
  deriving DecidableEq, Repr

def EvictionPolicy.value : EvictionPolicy → Text
  | .inherit => "inherit".toList
  | .exempt => "exempt".toList

/-- A public alias and the asset it is bound to; `assetId` is `none` while a mutable alias waits
to be rebound. -/
structure AliasBinding where
  space : Text
  aliasName : Text
  assetId : Option Text
  mutable : Bool
  previousAssetId : Option Text
  createdAt : Time
  updatedAt : Time
  createdByServiceId : Text
  deriving DecidableEq

def AliasBinding.qualifiedAlias (b : AliasBinding) : Except Err Text :=
  AssetStore.qualifiedAlias b.space b.aliasName

/-- Payload metadata and lifecycle state, as a row of the asset table holds them. -/
structure AssetRow where
  assetId : Text
  space : Text
  partitionId : Text
  storageKey : Text
  state : AssetState
  mime : Option Text := none
  sizeBytes : Option Int := none
  reservedBytes : Option Int := none
  checksumAlgo : Text := "sha256".toList
  checksum : Option Text := none
  annotations : Mapping := ∅
  createdAt : Time
  updatedAt : Time
  expiresAt : Option Time := none
  expiredAt : Option Time := none
  lastReadAt : Option Time := none
  readCount : Int := 0
  payloadDeletedAt : Option Time := none
  ownerServiceId : Text := "system".toList
  evictionPolicy : EvictionPolicy := .inherit
  deriving DecidableEq

/-- An asset with the keys of the aliases that are bound to it. -/
structure Asset extends AssetRow where
  aliases : Finset Text
  deriving DecidableEq

/-- Whether alias resolution may return the asset. -/
def Asset.isResolvable (a : Asset) : Bool := a.state == .available

/-- The bytes an asset occupies until it is purged. -/
def AssetRow.physicalBytes (a : AssetRow) : Int := a.sizeBytes.getD (a.reservedBytes.getD 0)

/-- The audited actions. -/
inductive AuditAction
  | capabilityIssue
  | aliasCreate
  | uploadReserve
  | aliasAttach
  | assetCommit
  | annotationsUpdate
  | aliasDetach
  | aliasDetachMutable
  | aliasRebind
  | assetExpire
  | assetDelete
  | evictionPolicySet
  | quotaSet
  | payloadDelete
  | gcMark
  | ttlSet
  deriving DecidableEq, Repr

structure AuditEvent where
  action : AuditAction
  target : Text
  callerServiceId : Text
  outcome : Text
  before : Mapping
  after : Mapping
  ts : Time
  deriving DecidableEq

/-- Limits and usage counters of a partition. -/
structure PartitionQuota where
  space : Text
  partitionId : Text
  quotaBytes : Option Int := none
  quotaAssetCount : Option Int := none
  usedBytes : Int := 0
  usedAssetCount : Int := 0
  evictionSweepEnabled : Bool := false
  deriving DecidableEq

/-- Limits and usage counter of a bucket. -/
structure BucketQuota where
  space : Text
  quotaBytes : Option Int := none
  usedBytes : Int := 0
  warnThreshold : Rat := 4 / 5
  hardCeiling : Rat := 1
  deriving DecidableEq

/-- `_SWEEP_DEFAULT_SPACES`. -/
def sweepDefaultSpaces : List Text := ["cache".toList, "tmp".toList]

/-- `_PARTITION_HARD_RATIO`. -/
def partitionHardRatio : Rat := 21 / 20

/-- The counters of a partition without a stored row. -/
def defaultPartition (space partitionId : Text) : PartitionQuota :=
  { space, partitionId, evictionSweepEnabled := space ∈ sweepDefaultSpaces }

/-! ### Admin queries (`admin_query.py`) -/

/-- The filters of a listing. -/
structure AssetFilter where
  space : Option Text := none
  partitionId : Option Text := none
  state : Option AssetState := none
  createdFrom : Option Time := none
  createdTo : Option Time := none
  pathPrefix : Option Text := none
  deriving DecidableEq

structure AssetQuery extends AssetFilter where
  limit : Nat := 50
  cursor : Option Text := none
  deriving DecidableEq

/-- `AssetQuery.matches`. -/
def AssetFilter.accepts (q : AssetFilter) (a : Asset) : Prop :=
  (∀ s ∈ q.space, a.space = s) ∧ (∀ p ∈ q.partitionId, a.partitionId = p) ∧
    (∀ s ∈ q.state, a.state = s) ∧ (∀ t ∈ q.createdFrom, t ≤ a.createdAt) ∧
    (∀ t ∈ q.createdTo, a.createdAt ≤ t) ∧
    (∀ p ∈ q.pathPrefix, ∃ name ∈ a.aliases, isUnder p name = true)

instance (q : AssetFilter) (a : Asset) : Decidable (q.accepts a) := by
  unfold AssetFilter.accepts; infer_instance

/-! ### The process environment -/

/-- What the process reads from outside: environment variables, SHA-256, and the JSON and base64
codecs of a listing cursor. -/
structure Env where
  /-- `ASSET_STORE_RESULTS_MAX_TTL_SECONDS`. -/
  resultsMaxTtl : Int := 365 * 86400
  /-- The items of `ASSET_STORE_CAPACITY_BYTES`, when it is a JSON object of integers. -/
  capacityBytes : Option (List (Text × Int)) := some []
  /-- `ASSET_STORE_CAPACITY_HARD_RATIO`. -/
  capacityHardRatio : Rat := 19 / 20
  sha256 : List UInt8 → List (Fin 16)
  fingerprint : AssetFilter → Text
  encodeCursor : Text × Time × Text → Text
  decodeCursor : Text → Option (Text × Time × Text)

def hexDigit (d : Fin 16) : Char := ("0123456789abcdef".toList).getD d.val '0'

/-- `hashlib.sha256(data).hexdigest()`. -/
def Env.sha256Hex (env : Env) (data : List UInt8) : Text := (env.sha256 data).map hexDigit

/-- The default configuration, with the digest of the empty input. -/
def plainEnv : Env where
  sha256 _ :=
    [14, 3, 11, 0, 12, 4, 4, 2, 9, 8, 15, 12, 1, 12, 1, 4, 9, 10, 15, 11, 15, 4, 12, 8, 9, 9, 6, 15,
      11, 9, 2, 4,
     2, 7, 10, 14, 4, 1, 14, 4, 6, 4, 9, 11, 9, 3, 4, 12, 10, 4, 9, 5, 9, 9, 1, 11, 7, 8, 5, 2,
       11, 8, 5, 5]
  fingerprint _ := []
  encodeCursor _ := []
  decodeCursor _ := none

/-- `s.encode()`. -/
def utf8 (s : Text) : List UInt8 := s.flatMap String.utf8EncodeChar

/-- The position that the cursor of a query encodes. -/
def AssetQuery.after (env : Env) (q : AssetQuery) : Except Err (Option (Time × Text)) :=
  match q.cursor with
  | none | some [] => .ok none
  | some c =>
    match env.decodeCursor c with
    | some (mark, created, assetId) =>
      if mark = env.fingerprint q.toAssetFilter then .ok (some (created, assetId))
      else .error { cls := .validation, message := "invalid cursor or changed filters" }
    | none => .error { cls := .validation, message := "invalid cursor or changed filters" }

/-! ### `retention.py` -/

/-- The last instant a `datetime` can hold. -/
def maxTime : Time := 253402300799999999

/-- The deadline of an asset; `tmp` and `results` have bounded defaults. -/
def expiryFor (env : Env) (space : Text) (ttlSeconds : Option Int) (now : Time) :
    Except Err (Option Time) := do
  let maximum : Option Int :=
    if space = "tmp".toList then some (7 * 86400)
    else if space = "results".toList then some env.resultsMaxTtl
    else none
  raiseIf (space = "results".toList ∧ env.resultsMaxTtl ≤ 0)
    { cls := .validation, message := "results maximum TTL must be positive" }
  let ttl : Option Int :=
    if space = "tmp".toList then some (ttlSeconds.getD 86400)
    else if space = "results".toList then some (ttlSeconds.getD env.resultsMaxTtl)
    else ttlSeconds
  match ttl with
  | none => return none
  | some seconds =>
    raiseIf (seconds ≤ 0 ∨ ∃ m ∈ maximum, m < seconds)
      { cls := .validation
        message := "ttl_seconds must be positive and within the bucket maximum" }
    raiseIf (maxTime < now + seconds * 1000000)
      { cls := .validation, message := "ttl_seconds is too large" }
    return some (now + seconds * 1000000)

/-- Denies reads of expired and deleted assets. -/
def requireLive (a : Asset) (now : Time) : Except Err Unit := do
  raiseIf (a.state = .deleted) { cls := .assetDeleted, message := "asset has been deleted" }
  raiseIf (a.state = .expired ∨ a.state = .available ∧ ∃ t ∈ a.expiresAt, t ≤ now)
    { cls := .assetExpired, message := "asset has expired" }

/-- Only maintenance transitions are allowed, and a purge requires the asset to be deleted. -/
def validateCleanupTransition (a : Asset) (state : AssetState) (payloadDeleted : Bool) :
    Except Err Unit :=
  let allowed :=
    (state = .expired ∧ a.state = .available ∧ payloadDeleted = false) ∨
      (state = .deleted ∧ (a.state = .pending ∨ a.state = .expired ∨ a.state = .deleted) ∧
        (payloadDeleted = false ∨ a.state = .deleted))
  raiseIf (¬allowed ∨ a.payloadDeletedAt ≠ none)
    { cls := .invalidStateTransition, message := "invalid maintenance lifecycle transition" }

theorem validateCleanupTransition_eq_ok {a : Asset} {state : AssetState} {payloadDeleted : Bool}
    {u : Unit} : validateCleanupTransition a state payloadDeleted = .ok u ↔
      ((state = .expired ∧ a.state = .available ∧ payloadDeleted = false) ∨
        (state = .deleted ∧ (a.state = .pending ∨ a.state = .expired ∨ a.state = .deleted) ∧
          (payloadDeleted = false ∨ a.state = .deleted))) ∧ a.payloadDeletedAt = none := by
  simp only [validateCleanupTransition, raiseIf_eq_ok]
  rw [not_or, not_not, not_not]

/-- The byte budgets of the buckets that have one. -/
def capacityLimits (env : Env) : Except Err (List (Text × Int)) := do
  let malformed : Err :=
    { cls := .validation
      message := "ASSET_STORE_CAPACITY_BYTES must map buckets to positive bytes" }
  let values ← someOr env.capacityBytes malformed
  raiseIf (∃ item ∈ values, item.1 ∉ storageBuckets ∨ item.2 ≤ 0) malformed
  return values

/-- The physical capacity gate. -/
def enforceCapacity (env : Env) (space : Text) (prospectiveBytes : Int) : Except Err Unit := do
  let limits ← capacityLimits env
  match limits.lookup space with
  | none => return ()
  | some limit =>
    raiseIf (¬(0 < env.capacityHardRatio ∧ env.capacityHardRatio ≤ 1))
      { cls := .validation, message := "capacity hard ratio must be in (0, 1]" }
    raiseIf ((limit : Rat) * env.capacityHardRatio ≤ prospectiveBytes)
      { cls := .capacityExceeded, message := "bucket physical capacity hard ceiling reached" }

end AssetStore
