import AssetStore.Fetcher
import AssetStore.Guard.SingleUse

/-! Fetching a URL twice. The fetcher looks an alias up under one normalization and stores it
through the guard, which splits the path and lets the registry put it together again. The second
request finds what the first stored exactly when the path that is looked up splits cleanly. -/

namespace AssetStore

open Lib

/-! ### The lookup path and the bound path -/

/-- The path under which an alias is looked up. -/
def lookupPath (relativeAlias : Text) : Text := trimPath (trimPath relativeAlias)

section Paths

variable {b r p n : Text}

theorem bucket_lead (hb : b ∈ storageBuckets) : lead isSpace isSlash b = b := by
  have hall : ∀ b ∈ storageBuckets, lead isSpace isSlash b = b := by decide
  exact hall b hb

theorem bucket_ne_nil (hb : b ∈ storageBuckets) : b ≠ [] := by
  have hall : ∀ b ∈ storageBuckets, b ≠ [] := by decide
  exact hall b hb

theorem parseAlias_under {parsed : ParsedAlias} (hb : b ∈ storageBuckets)
    (hr : trail isSpace isSlash r ≠ []) (h : parseAlias (b ++ '/' :: r) = .ok parsed) :
    parsed.space = b ∧ parsed.relative = trimPath (trail isSpace isSlash r) := by
  have hcleaned : stripSlash (stripSpace (b ++ '/' :: r)) = b ++ '/' ::
      trail isSpace isSlash r := by
    change trim isSpace isSlash (b ++ '/' :: r) = _
    rw [trim_eq_lead_trail, show b ++ '/' :: r = (b ++ ['/']) ++ r by simp, trail_append hr,
      List.append_assoc, lead_append (by rw [bucket_lead hb]; exact bucket_ne_nil hb),
        bucket_lead hb]
    rfl
  simp only [parseAlias, hcleaned, partitionSlash_append (bucket_no_slash hb), except_bind_eq_ok,
    except_pure_eq_ok] at h
  obtain ⟨_, _, space, hspace, relative, hrel, _, _, _, _, _, _, _, _, rfl⟩ := h
  obtain rfl : b = space := by simpa [normalizeSpace, normalizeBucket_of_mem hb] using hspace
  exact ⟨rfl, (normalizeRelativeAlias_eq_ok.mp hrel).1.symm⟩

theorem Cut.length_boundPath_le (h : Cut r p n) :
    (boundPath (stripSpace p) (trimPath n)).length ≤ (trimPath r).length := by
  have hpart : (stripSpace p).length ≤ (p.dropWhile isSpace).length :=
    (List.rdropWhile_prefix isSpace _).length_le
  have hname : (trimPath n).length ≤ (nameTail n).length := by
    rw [trimPath, trim_eq_lead_trail]
    exact length_lead_le _ _ _
  have hrel : (trimPath (trimPath (trimPath n))).length ≤ (trimPath n).length :=
    (length_trim_le _ _ _).trans (length_trim_le _ _ _)
  rw [h.trimPath_eq]
  unfold boundPath
  refine (length_trim_le _ _ _).trans ?_
  simp only [List.length_append, List.length_cons]
  split
  · omega
  · simp only [List.length_append, List.length_cons]
    omega

theorem rdropWhile_trimPath (s : Text) : (trimPath s).rdropWhile isSlash = trimPath s := by
  unfold trimPath trim strip
  exact List.rdropWhile_idempotent isSlash _

/-- A path that splits cleanly and ends in no slash is not trimmed at its back. -/
theorem SplitsCleanly.trail_eq {path : Text} (h : SplitsCleanly path)
    (hslash : path.rdropWhile isSlash = path) : trail isSpace isSlash path = path := by
  have hspace : path.rdropWhile isSpace = path := by
    cases hcut : partitionSlash path with
    | mk a rest =>
      obtain ⟨sep, n⟩ := rest
      have ha := h.partition
      have hn := h.name
      rw [hcut] at ha hn
      cases sep with
      | false =>
        have : a = path := by
          unfold partitionSlash at hcut
          split at hcut
          · simp_all
          · simp at hcut
        rw [this] at ha
        exact rdropWhile_of_strip ha
      | true =>
        obtain ⟨rfl, -⟩ := partitionSlash_true hcut
        cases n with
        | nil =>
          -- the path would end in a slash
          have hlen := congrArg List.length hslash
          rw [show a ++ ['/'] = a ++ "/".toList from rfl, rdropWhile_append] at hlen
          simp only [show "/".toList.rdropWhile isSlash = [] by decide, if_true] at hlen
          have := (List.rdropWhile_prefix isSlash a).length_le
          simp at hlen
          omega
        | cons c n =>
          have hn' : (c :: n).rdropWhile isSpace = c :: n := rdropWhile_of_strip hn
          rw [show a ++ '/' :: c :: n = (a ++ ['/']) ++ (c :: n) by simp, rdropWhile_append, hn']
          simp
  rw [trail, hspace, hslash]

/-- The registry binds the path that is looked up exactly when it splits cleanly. -/
theorem Cut.boundPath_eq_lookup_iff (h : Cut (trimPath (trail isSpace isSlash r)) p n) :
    boundPath (stripSpace p) (trimPath n) = lookupPath r ↔ SplitsCleanly (lookupPath r) := by
  have hchecked : trimPath (trimPath (trail isSpace isSlash r)) =
      trail isSpace isSlash (lookupPath r) := by
    rw [trimPath, trimPath, trim_trail, trim_trail, lookupPath, trimPath, trimPath]
  have hiff := h.boundPath_eq_iff
  rw [hchecked] at hiff
  constructor
  · intro heq
    have hfix : trail isSpace isSlash (lookupPath r) = lookupPath r := by
      refine trail_eq_self_of_length _ _ ?_
      calc (lookupPath r).length = (boundPath (stripSpace p) (trimPath n)).length := by rw [heq]
        _ ≤ (trail isSpace isSlash (lookupPath r)).length := hchecked ▸ h.length_boundPath_le
    rw [hfix] at hiff
    exact hiff.mp heq
  · intro hclean
    have hslash : (lookupPath r).rdropWhile isSlash = lookupPath r :=
      rdropWhile_trimPath (trimPath r)
    have hfix := SplitsCleanly.trail_eq hclean hslash
    rw [hfix] at hiff
    exact hiff.mpr hclean

end Paths

/-! ### Lookups while the clock stands still -/

/-- What an alias key resolves to at an instant. -/
def Registry.resolveKey (r : Registry) (key : Text) (now : Time) : Except Err Asset := do
  let binding ← someOr (r.aliases.get key) { cls := .aliasNotFound, message := "%s", args := [key] }
  raiseNaming (binding.assetId = none) binding .invalidStateTransition
    "alias %r is detached pending rebind"
  let a ← someOr (r.assets.get (binding.assetId.getD []))
    { cls := .assetNotFound, message := "%s", args := [binding.assetId.getD []] }
  requireLive a now
  raiseIf (a.isResolvable = false)
    { cls := .invalidStateTransition, message := "asset %r is not resolvable in state %r"
      args := [a.assetId, a.state.value] }
  return a

/-- What an alias resolves to at an instant. -/
def Registry.lookup (r : Registry) (space name : Text) (now : Time) : Except Err Asset := do
  let normAlias ← normalizeRelativeAlias name
  let path ← normalizeRelativeAlias normAlias
  r.resolveKey (space ++ '/' :: path) now

theorem resolveAlias_frozen {s : Session} {t : Time} {space name : Text}
    (frozen : s.clock = fun _ => t) (hspace : space ∈ storageBuckets) :
    resolveAlias space name s = attempt (s.reg.lookup space name t) s := by
  have hnow : utcnow s = .ok t s := by
    obtain ⟨reg, clock⟩ := s
    subst frozen
    rfl
  have htables : tables s = .ok s.reg s := rfl
  have hnorm : normalizeSpace space = .ok space := normalizeBucket_of_mem hspace
  unfold resolveAlias getBinding Registry.lookup
  rw [bind_assoc, bind_of_ok (attempt_of_ok hnorm), bind_assoc]
  refine bind_attempt rfl fun normAlias => ?_
  rw [bind_assoc]
  cases hpath : normalizeRelativeAlias normAlias with
  | error e =>
    have hkey : qualifiedAlias space normAlias = .error e := by simp [qualifiedAlias, hnorm, hpath]
    rw [hkey]
    rfl
  | ok path =>
    have hkey : qualifiedAlias space normAlias = .ok (space ++ '/' :: path) := by
      simp [qualifiedAlias, hnorm, hpath]
    rw [bind_of_ok (attempt_of_ok hkey), bind_assoc, bind_of_ok htables]
    refine bind_attempt rfl fun binding => bind_attempt rfl fun _ => ?_
    unfold getAsset
    rw [bind_assoc, bind_of_ok htables]
    refine bind_attempt rfl fun a => ?_
    rw [bind_of_ok hnow]
    exact bind_attempt rfl fun _ => bind_attempt rfl fun _ => rfl

/-- The buckets that the fetcher works in. -/
def FetcherBucket (b : Text) : Prop := b = "cache".toList ∨ b = "tmp".toList

theorem FetcherBucket.mem {b : Text} (h : FetcherBucket b) : b ∈ storageBuckets := by
  rcases h with rfl | rfl <;> decide

theorem FetcherBucket.read_allowed {b : Text} (h : FetcherBucket b) :
    assertServiceBucketAllowed "fetcher".toList b .read = .ok () := by
  rcases h with rfl | rfl <;> decide

section Lookup

variable {w w' : World} {t : Time} {b r : Text}

theorem guarded_registry_attempt {α : Type} {m : RegM α} {x : Except Err α} {app : App}
    (h : m app.guard.session = attempt x app.guard.session) :
    guarded (registry m) app = attempt x app := by
  have hm : m ⟨app.guard.reg, app.guard.clock⟩ = attempt x app.guard.session := h
  unfold guarded
  rw [alone_registry]
  unfold liftRegistry
  rw [hm]
  cases x <;> rfl

/-- While the clock stands still, a lookup only reads. -/
theorem clientResolve_frozen (hb : FetcherBucket b) (frozen : w.app.guard.clock = fun _ => t) :
    clientResolve b r w =
      match w.app.guard.reg.lookup b r t with
      | .ok a => .ok (some a) w
      | .error e =>
        if e.cls.status = 404 then .ok none w
        else .error (.assetStore "resolve failed" e.cls.status) w := by
  have hresolve : resolve "fetcher".toList b r w.app =
      attempt (w.app.guard.reg.lookup b r t) w.app := by
    unfold resolve
    rw [bind_of_ok (attempt_of_ok hb.read_allowed)]
    exact guarded_registry_attempt (resolveAlias_frozen frozen hb.mem)
  unfold clientResolve
  rw [hresolve]
  cases w.app.guard.reg.lookup b r t <;> rfl

theorem lookup_of_accepted {reg : Registry} {r1 path : Text}
    (hr : normalizeRelativeAlias r = .ok r1)
    (hpath : normalizeRelativeAlias r1 = .ok path) :
    reg.lookup b r t = reg.resolveKey (b ++ '/' :: path) t := by
  simp only [Registry.lookup, hr, hpath, bind, Except.bind]

/-- An alias that is not found was accepted. -/
theorem lookup_not_found {reg : Registry} {e : Err} (h : reg.lookup b r t = .error e)
    (hstatus : e.cls.status = 404) :
    normalizeRelativeAlias r = .ok (trimPath r) ∧
      normalizeRelativeAlias (trimPath r) = .ok (lookupPath r) ∧
      reg.resolveKey (b ++ '/' :: lookupPath r) t = .error e := by
  have hrefused : ∀ {x : Text}, normalizeRelativeAlias x ≠ .error e := by
    intro x hx
    rw [normalizeRelativeAlias_error hx] at hstatus
    exact absurd hstatus (by decide)
  simp only [Registry.lookup, except_bind_eq_error, hrefused, false_or] at h
  obtain ⟨r1, hr, path, hpath, hkey⟩ := h
  obtain rfl := (normalizeRelativeAlias_eq_ok.mp hr).1
  obtain rfl := (normalizeRelativeAlias_eq_ok.mp hpath).1
  exact ⟨hr, hpath, hkey⟩

end Lookup

/-! ### Requests that leave the bindings alone -/

/-- The bindings and the assets are the same, and some readings were taken. -/
def Calm (g g' : GuardState) : Prop :=
  g'.reg.aliases = g.reg.aliases ∧ g'.reg.assets = g.reg.assets ∧
    ∃ n, g'.clock = fun k => g.clock (n + k)

/-- The same, for a session of the registry. -/
def CalmSession (s s' : Session) : Prop :=
  s'.reg.aliases = s.reg.aliases ∧ s'.reg.assets = s.reg.assets ∧ Later s s'

instance : Frame CalmSession where
  refl s := ⟨rfl, rfl, Closed.refl s⟩
  trans h h' := ⟨h'.1.trans h.1, h'.2.1.trans h.2.1, Closed.trans h.2.2 h'.2.2⟩
  tick s := ⟨rfl, rfl, Frame.tick s⟩

instance : Closed Calm where
  refl g := ⟨rfl, rfl, 0, by simp⟩
  trans := by
    rintro g g' g'' ⟨ha, has, n, hn⟩ ⟨ha', has', n', hn'⟩
    refine ⟨ha'.trans ha, has'.trans has, n + n', ?_⟩
    rw [hn', hn]
    funext k
    rw [Nat.add_assoc]

theorem Calm.frozen {g g' : GuardState} {t : Time} (h : Calm g g') (frozen : g.clock = fun _ => t) :
    g'.clock = fun _ => t := by
  obtain ⟨-, -, n, hn⟩ := h
  rw [hn, frozen]

theorem calm_registry {α : Type} {m : RegM α} (h : Within CalmSession m) :
    Within Calm (liftRegistry m) := fun g => by
  rw [final_liftRegistry]
  exact h g.session

theorem calm_ledgerStep {step : Ledger → Time → Except Err Unit × Ledger} :
    Within Calm (ledgerStep step) := fun g => by
  rw [final_ledgerStep]
  exact ⟨rfl, rfl, 1, by simp [Nat.add_comm]⟩

/-- The same, for the whole process. -/
def CalmApp (app app' : App) : Prop := Calm app.guard app'.guard

instance : Closed CalmApp where
  refl app := Closed.refl (R := Calm) app.guard
  trans h h' := Closed.trans (R := Calm) h h'

theorem calm_guarded {α : Type} {p : GuardProg α} (h : Within Calm (alone p)) :
    Within CalmApp (guarded p) := fun app => by
  have := h app.guard
  unfold guarded
  cases hp : alone p app.guard with
  | ok a g =>
    rw [hp] at this
    exact this
  | error e g =>
    rw [hp] at this
    exact this

theorem calm_guarded_registry {α : Type} {m : RegM α} (h : Within CalmSession m) :
    Within CalmApp (guarded (registry m)) :=
  calm_guarded (by rw [alone_registry]; exact calm_registry h)

theorem calm_updateCapabilities {f : Dict Text Capability → Dict Text Capability} :
    Within CalmApp (updateCapabilities f) := fun app => Closed.refl (R := CalmApp) app

theorem calm_get : Within CalmApp (get : AppM App) := fun app => Closed.refl (R := CalmApp) app

theorem calm_recordCapabilityIssue {env : Env} {caller op scope outcome : Text} {ttl : Int}
    {capId : Option Text} :
    Within CalmSession (recordCapabilityIssue env caller op scope ttl outcome capId) :=
  Within.bind Within.utcnow fun _ => Within.updateTables fun _ => ⟨rfl, rfl, 0, by simp⟩

theorem calm_prune : Within Calm (alone pruneConsumedCapabilities) := by
  unfold pruneConsumedCapabilities
  rw [alone_perform, Cmd.sem]
  exact calm_ledgerStep

theorem calm_authorizeWrite {cap : Capability} {aliasName : Text} :
    Within Calm (alone (authorizeWrite cap aliasName)) := by
  simp only [authorizeWrite, authorize, alone_bind, alone_check, alone_registry, alone_perform,
    Cmd.sem, alone_pure]
  refine Within.bind (Within.bind Within.attempt fun _ => ?_) fun _ => Within.pure
  refine Within.bind (calm_registry Within.utcnow) fun _ => Within.bind Within.attempt fun _ => ?_
  exact Within.bind calm_ledgerStep fun _ => Within.bind Within.attempt fun _ => Within.pure

theorem calm_requireCapability {token : Text} : Within CalmApp (requireCapability token) :=
  Within.bind (calm_guarded_registry Within.utcnow) fun _ =>
    Within.bind calm_updateCapabilities fun _ => Within.bind calm_get fun _ => Within.attempt

theorem calm_mintCapability {cfg : ApiConfig} {env : Env} {capId caller scope : Text}
    {op : Operation}
    {ttl : Int} {single : Bool} :
    Within CalmApp (mintCapability cfg env capId caller op scope ttl single) := by
  refine Within.bind Within.attempt fun _ => Within.bind Within.attempt fun bucket => ?_
  refine Within.bind ?_ fun _ => ?_
  · unfold requireBucketAllowed
    split
    · exact Within.pure
    · exact Within.bind (calm_guarded_registry calm_recordCapabilityIssue) fun _ => Within.attempt
  · refine Within.bind (calm_guarded_registry Within.utcnow) fun _ =>
      Within.bind Within.attempt fun cap => Within.bind (calm_guarded calm_prune) fun _ => ?_
    refine Within.bind ?_ fun _ => Within.pure
    refine Within.bind (calm_guarded_registry Within.utcnow) fun _ =>
      Within.bind calm_updateCapabilities fun _ => Within.bind Within.attempt fun _ => ?_
    exact Within.bind calm_get fun _ => Within.bind Within.attempt fun _ =>
      Within.bind (calm_guarded_registry calm_recordCapabilityIssue) fun _ =>
        calm_updateCapabilities

theorem guarded_eq_ok {α : Type} {p : GuardProg α} {app app' : App} {a : α} :
    guarded p app = .ok a app' ↔
      ∃ g, alone p app.guard = .ok a g ∧ app' = { app with guard := g } := by
  unfold guarded
  cases h : alone p app.guard with
  | ok b g =>
    simp only [EStateM.Result.ok.injEq]
    constructor
    · rintro ⟨rfl, rfl⟩
      exact ⟨g, ⟨rfl, rfl⟩, rfl⟩
    · rintro ⟨_, ⟨rfl, rfl⟩, rfl⟩
      exact ⟨rfl, rfl⟩
  | error e g => simp

/-- A successful upload is a write of the guard after requests that leave the bindings alone. -/
theorem putObject_eq_ok {cfg : ApiConfig} {env : Env} {newId token aliasName : Text}
    {data : List UInt8} {mime : Option Text} {app app' : App} {a : Asset}
    (h : putObject cfg env newId token aliasName data mime app = .ok a app') :
    ∃ cap g, Calm app.guard g ∧
      alone (writeObject env newId cap aliasName data { mime }) g = .ok a app'.guard := by
  simp only [putObject, bind_eq_ok, attempt_eq_ok] at h
  obtain ⟨cap, app1, hcap, _, app2, hauth, _, _, ⟨_, rfl⟩, hwrite⟩ := h
  obtain ⟨g, hg, rfl⟩ := guarded_eq_ok.mp hwrite
  have hcalm : CalmApp app app2 :=
    Closed.trans (calm_requireCapability.ok hcap) ((calm_guarded calm_authorizeWrite).ok hauth)
  exact ⟨cap, app2.guard, hcalm, hg⟩

theorem request_eq_ok {α : Type} {message : String} {m : AppM α} {w w' : World} {a : α} :
    request message m w = .ok a w' ↔ ∃ app, m w.app = .ok a app ∧ w' = { w with app } := by
  unfold request
  cases h : m w.app with
  | ok b app =>
    simp only [EStateM.Result.ok.injEq]
    constructor
    · rintro ⟨rfl, rfl⟩
      exact ⟨app, ⟨rfl, rfl⟩, rfl⟩
    · rintro ⟨_, ⟨rfl, rfl⟩, rfl⟩
      exact ⟨rfl, rfl⟩
  | error e app => simp

theorem fetch_app {fetcher : UrlFetcher} {url : Text} {w w' : World} {c : FetchedContent}
    (h : fetch fetcher url w = .ok c w') : w'.app = w.app := by
  unfold fetch at h
  cases hf : fetcher w.fetched url with
  | ok content =>
    simp only [hf, EStateM.Result.ok.injEq] at h
    rw [← h.2]
  | error e => simp [hf] at h

section Twice

variable {lib : Urllib} {env : Env} {cfg : ApiConfig} {rules : List CacheRule}
  {fetcher : UrlFetcher}
  {ids : FreshIds} {req : EnsureRequest} {w w' : World} {t : Time} {res : EnsureUrlResult}

theorem targetOf_bucket {normalized : NormalizedUrl} {target : Target}
    (h : targetOf env rules req normalized = .ok target) : FetcherBucket target.bucket := by
  unfold targetOf at h
  split at h
  · simp only [except_bind_eq_ok, except_pure_eq_ok] at h
    obtain ⟨_, _, rfl⟩ := h
    exact .inl rfl
  · simp only [except_bind_eq_ok, except_pure_eq_ok] at h
    obtain ⟨_, _, rfl⟩ := h
    exact .inr rfl

/-- A request that misses stores the bytes under the key that the registry builds. -/
theorem ensureUrl_miss (frozen : w.app.guard.clock = fun _ => t) (cached : req.noCache = false)
    (first : ensureUrl lib env cfg rules fetcher ids req w = .ok res w')
      (miss : res.cacheHit = false) :
    ∃ normalized target e cap data mime a g, normalizeUrl lib req.url = .ok normalized ∧
      targetOf env rules req normalized = .ok target ∧
      w.app.guard.reg.lookup target.bucket target.relativeAlias t = .error e ∧ e.cls.status = 404 ∧
      Calm w.app.guard g ∧
      alone (writeObject env ids.asset cap target.qualified data { mime }) g = .ok a w'.app.guard ∧
      res.assetId = a.assetId ∧ res.qualifiedAlias = target.qualified := by
  simp only [ensureUrl, bind_eq_ok, attempt_eq_ok] at first
  obtain ⟨normalized, _, ⟨hnorm, rfl⟩, target, _, ⟨htarget, rfl⟩, existing, w1, hexisting, first⟩ :=
    first
  rw [clientResolve_frozen (targetOf_bucket htarget) frozen] at hexisting
  cases hlookup : w.app.guard.reg.lookup target.bucket target.relativeAlias t with
  | ok asset =>
    -- a hit
    simp only [hlookup, EStateM.Result.ok.injEq] at hexisting
    obtain ⟨rfl, rfl⟩ := hexisting
    simp only [cached, if_true, pure_eq_ok] at first
    rw [← first.1] at miss
    cases miss
  | error e =>
    simp only [hlookup] at hexisting
    by_cases hstatus : e.cls.status = 404
    · simp only [hstatus, if_true, EStateM.Result.ok.injEq] at hexisting
      obtain ⟨rfl, rfl⟩ := hexisting
      simp only [bind_eq_ok, request_eq_ok, pure_eq_ok] at first
      obtain ⟨content, w2, hfetch, capId, _, ⟨app3, hmint, rfl⟩, a, _, ⟨app4, hput, rfl⟩,
          rfl, rfl⟩ :=
        first
      obtain ⟨cap, g, hcalm, hwrite⟩ := putObject_eq_ok hput
      refine ⟨normalized, target, e, cap, content.data, _, a, g, hnorm, htarget, hlookup,
        hstatus, ?_, hwrite, rfl, rfl⟩
      have hmint' : CalmApp w2.app app3 := calm_mintCapability.ok hmint
      rw [fetch_app hfetch] at hmint'
      exact Closed.trans (R := Calm) hmint' hcalm
    · simp [hstatus] at hexisting

/-- Lookups of a key that is bound as before, to an asset that is as before. -/
theorem Registry.resolveKey_congr {r r' : Registry} {key : Text}
    (haliases : r'.aliases.get key = r.aliases.get key)
    (hassets : ∀ b id, r.aliases.get key = some b → b.assetId = some id →
      r'.assets.get id = r.assets.get id) : r'.resolveKey key t = r.resolveKey key t := by
  unfold Registry.resolveKey
  rw [haliases]
  cases hget : r.aliases.get key with
  | none => rfl
  | some b =>
    change (raiseNaming (b.assetId = none) b _ _ >>= fun _ =>
      someOr (r'.assets.get (b.assetId.getD [])) _ >>= _) =
        (raiseNaming (b.assetId = none) b _ _ >>= _)
    cases hid : b.assetId with
    | none =>
      -- a detached alias raises before any asset is read
      have hraise : ∃ e, raiseNaming (b.assetId = none) b .invalidStateTransition
          "alias %r is detached pending rebind" = .error e := by
        unfold raiseNaming
        rw [if_pos hid]
        cases b.qualifiedAlias with
        | ok key => exact ⟨_, rfl⟩
        | error e => exact ⟨e, rfl⟩
      obtain ⟨e, he⟩ := hraise
      simp only [hid] at he ⊢
      rw [he]
      rfl
    | some id =>
      rw [Option.getD_some, hassets b id hget hid]

theorem requireLive_of_expiry {space : Text} {a : Asset} (hspace : FetcherBucket space)
    (hstate : a.state = .available) (hexpiry : expiryFor env space none t = .ok a.expiresAt) :
    requireLive a t = .ok () := by
  have hlive : ∀ d ∈ a.expiresAt, t < d := by
    intro d hd
    rcases hspace with rfl | rfl
    · have hnone : expiryFor env "cache".toList none t = .ok none := rfl
      rw [← Except.ok.inj (hnone.symm.trans hexpiry)] at hd
      cases hd
    · simp only [expiryFor, except_bind_eq_ok, raiseIf_eq_ok] at hexpiry
      obtain ⟨_, _, h⟩ := hexpiry
      simp only [if_true, Option.getD_none, except_bind_eq_ok, except_pure_eq_ok] at h
      obtain ⟨_, _, _, _, h⟩ := h
      rw [← h, Option.mem_some_iff] at hd
      rw [← hd]
      exact lt_add_of_pos_right t (by decide)
  simp only [requireLive, hstate, raiseIf, reduceCtorEq, if_false, false_or, true_and]
  rw [if_neg]
  · rfl
  · rintro ⟨d, hd, hle⟩
    exact absurd (hlive d hd) (not_lt.mpr hle)

/-- The next request with the same arguments hits, without a fetch. -/
def Repeats (second : EStateM.Result FetchError World EnsureUrlResult) (res : EnsureUrlResult)
    (w : World) : Prop :=
  ∃ res2 w2, second = .ok res2 w2 ∧ res2.cacheHit = true ∧ res2.assetId = res.assetId ∧
    res2.qualifiedAlias = res.qualifiedAlias ∧ w2.fetched = w.fetched

/-- After a miss, the same request hits the stored asset exactly when the path that is looked up
splits cleanly. -/
theorem ensureUrl_repeats_iff {ids' : FreshIds} (frozen : w.app.guard.clock = fun _ => t)
    (cached : req.noCache = false)
    (unused : ∀ key b, w.app.guard.reg.aliases.get key = some b → b.assetId ≠ some ids.asset)
    (first : ensureUrl lib env cfg rules fetcher ids req w = .ok res w')
      (miss : res.cacheHit = false) :
    ∃ normalized target, normalizeUrl lib req.url = .ok normalized ∧
      targetOf env rules req normalized = .ok target ∧
      (Repeats (ensureUrl lib env cfg rules fetcher ids' req w') res w' ↔
        SplitsCleanly (lookupPath target.relativeAlias)) := by
  obtain ⟨normalized, target, e, cap, data, mime, a, g, hnorm, htarget, hlookup, hstatus,
    hcalm, hwrite,
    hid, hqualified⟩ := ensureUrl_miss frozen cached first miss
  refine ⟨normalized, target, hnorm, htarget, ?_⟩
  have hbucket := targetOf_bucket htarget
  obtain ⟨hr, hpath, hkey⟩ := lookup_not_found hlookup hstatus
  obtain ⟨parsed, p, n, key, hparse, -, -, hcut, -, hbound, effect⟩ := write_effect hwrite
  -- the guard parses the same path
  have htrail : trail isSpace isSlash target.relativeAlias ≠ [] := by
    intro he
    have hne := (normalizeRelativeAlias_eq_ok.mp hr).2.1
    rw [trimPath, trim_eq_lead_trail, he] at hne
    exact hne rfl
  obtain ⟨hspace, hrelative⟩ := parseAlias_under hbucket.mem htrail hparse
  rw [hspace] at hbound
  rw [hrelative] at hcut
  have hsame : key = target.bucket ++ '/' :: lookupPath target.relativeAlias ↔
      SplitsCleanly (lookupPath target.relativeAlias) := by
    rw [← hcut.boundPath_eq_lookup_iff, hbound]
    simp
  -- the second lookup, at the same instant
  have hgclock := hcalm.frozen frozen
  have hfrozen : w'.app.guard.clock = fun _ => t := by
    obtain ⟨k, hk⟩ := (writeObject_timely.alone_later).ok hwrite
    rw [hk, hgclock]
  have hlookup' : w'.app.guard.reg.lookup target.bucket target.relativeAlias t =
      w'.app.guard.reg.resolveKey (target.bucket ++ '/' :: lookupPath target.relativeAlias) t :=
    lookup_of_accepted hr hpath
  have hresolve := clientResolve_frozen (r := target.relativeAlias) hbucket hfrozen
  rw [hlookup'] at hresolve
  obtain ⟨haliases, hassets, -⟩ := hcalm
  obtain ⟨b, hb, hbinds⟩ := effect.binds
  obtain ⟨a0, hstores⟩ := effect.stores
  rw [haliases] at hbinds
  rw [hassets] at hstores
  rw [← hsame]
  constructor
  · rintro ⟨res2, w2, hsecond, hhit, -⟩
    by_contra hne
    have hmiss : w'.app.guard.reg.resolveKey
        (target.bucket ++ '/' :: lookupPath target.relativeAlias) t = .error e := by
      rw [← hkey]
      refine Registry.resolveKey_congr ?_ fun b' id hget hid' => ?_
      · rw [hbinds, Dict.get_set_ne _ _ (Ne.symm hne)]
      · have hother : id ≠ ids.asset := fun he => unused _ b' hget (he ▸ hid')
        rw [hstores, Dict.get_set_ne _ _ hother, Dict.get_set_ne _ _ hother]
    simp only [hmiss, hstatus, if_true] at hresolve
    simp only [ensureUrl, bind_eq_ok, attempt_eq_ok] at hsecond
    obtain ⟨_, _, ⟨hnorm', rfl⟩, _, _, ⟨htarget', rfl⟩, existing, w3, hexisting, hrest⟩ := hsecond
    obtain rfl := Except.ok.inj (hnorm.symm.trans hnorm')
    obtain rfl := Except.ok.inj (htarget.symm.trans htarget')
    rw [hresolve] at hexisting
    obtain ⟨rfl, rfl⟩ := EStateM.Result.ok.inj hexisting
    simp only [bind_eq_ok, pure_eq_ok] at hrest
    obtain ⟨_, _, _, _, _, _, _, _, _, rfl, rfl⟩ := hrest
    cases hhit
  · intro hkey'
    have hfound : w'.app.guard.reg.resolveKey
        (target.bucket ++ '/' :: lookupPath target.relativeAlias) t = .ok a := by
      have hlive : requireLive a t = .ok () := by
        obtain ⟨reading, hexpiry⟩ := effect.expiry
        rw [hspace, show g.clock reading = t from congrFun (hgclock) reading] at hexpiry
        exact requireLive_of_expiry hbucket effect.state hexpiry
      have hresolvable : a.isResolvable = true := by simp [Asset.isResolvable, effect.state]
      unfold Registry.resolveKey
      rw [hbinds, ← hkey', Dict.get_set_self]
      simp [someOr, raiseNaming, hb, hstores, hlive, hresolvable, raiseIf]
    simp only [hfound] at hresolve
    refine ⟨⟨a.assetId, target.qualified, true, target.bucket, target.partitionId⟩, w', ?_, rfl,
      hid.symm, hqualified.symm, rfl⟩
    unfold ensureUrl
    rw [bind_of_ok (attempt_of_ok hnorm), bind_of_ok (attempt_of_ok htarget), bind_of_ok hresolve]
    simp [cached]

end Twice

/-- Splits the one URL of the examples, `http://host/` followed by a path. -/
def plainUrllib : Urllib where
  urlsplit url := .ok
    { scheme := "http".toList, hostname := some "host".toList, port := .ok none
      path := url.drop "http://host".toList.length, query := [] }
  unquote path := path
  lower text := text

/-- An asset store that holds nothing yet. -/
def emptyWorld : World := { app := { guard := emptyGuard, capabilities := .empty }, fetched := [] }

/-- A fetch of a URL of the host `host`, which is mirrored under `m`. -/
def mirrorFetch (path : Text) : FetchM EnsureUrlResult :=
  ensureUrl plainUrllib plainEnv {} [hostPassthroughRule "host".toList "m".toList]
    (fun _ _ => .ok { data := [], mime := [] }) ⟨"cap-1".toList, "a1".toList⟩
    { url := "http://host".toList ++ path }

theorem ensureUrl_repeats_mirrored :
    ∃ res w, mirrorFetch "/x".toList emptyWorld = .ok res w ∧ res.cacheHit = false ∧
      Repeats (mirrorFetch "/x".toList w) res w := by
  obtain ⟨res, w, h, hmiss⟩ := exists_ok_of_returns (show returns (fun res _ => !res.cacheHit)
    (mirrorFetch "/x".toList emptyWorld) = true by decide +kernel)
  have hmiss' : res.cacheHit = false := by simpa using hmiss
  obtain ⟨normalized, target, hnorm, htarget, hiff⟩ :=
    @ensureUrl_repeats_iff _ _ _ _ _ _ _ _ _ _ _ ⟨"cap-1".toList, "a1".toList⟩ rfl rfl
      (fun _ _ h => by cases h) h hmiss'
  obtain rfl : normalized = ⟨"http".toList, "host".toList, none, "/x".toList, []⟩ :=
    Except.ok.inj (hnorm.symm.trans rfl)
  obtain rfl : target = ⟨"cache".toList, "m".toList, "m/x".toList⟩ :=
    Except.ok.inj (htarget.symm.trans rfl)
  exact ⟨res, w, h, hmiss', hiff.mpr (by decide)⟩

/-- A path that starts with its mirror is stored where it is not looked up. -/
theorem ensureUrl_misses_again :
    ∃ res w, mirrorFetch "/m/x".toList emptyWorld = .ok res w ∧ res.cacheHit = false ∧
      ¬Repeats (mirrorFetch "/m/x".toList w) res w := by
  obtain ⟨res, w, h, hboth⟩ := exists_ok_of_returns (show returns (fun res w =>
      !res.cacheHit && !returns (fun res2 _ => res2.cacheHit) (mirrorFetch "/m/x".toList w))
    (mirrorFetch "/m/x".toList emptyWorld) = true by decide +kernel)
  simp only [Bool.and_eq_true, Bool.not_eq_eq_eq_not, Bool.not_true] at hboth
  refine ⟨res, w, h, hboth.1, ?_⟩
  rintro ⟨res2, w2, hsecond, hhit, -⟩
  have hnever := hboth.2
  rw [hsecond] at hnever
  exact absurd hhit (by simpa [returns] using hnever)

end AssetStore
