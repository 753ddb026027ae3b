import AssetStore.Fetcher.Gallica
import AssetStore.Fetcher.RoundTrip

/-! The pilot: it preloads an approved image under the alias that it reads the image from. What is
looked up is the alias of the approved target, what is stored is the alias of the URL that is
fetched for it, and the policy is asked about that URL again. The two agree, unless the URL has
outgrown the bound of the policy. -/

namespace AssetStore

open Lib

/-! ### Requests -/

/-- A request of the pilot to the asset store or to an origin, or an access to the capability that
it holds for reads. -/
inductive ClientCall : Type → Type
  | resolve (space aliasName : Text) : ClientCall (Option Asset)
  | fetch (url : Text) : ClientCall FetchedContent
  | mint (operation : Operation) (scopePrefix : Text) (ttlSeconds : Int) : ClientCall Text
  | put (capabilityId qualifiedAlias : Text) (data : List UInt8) (mime : Option Text) :
      ClientCall Asset
  | read (capabilityId qualifiedAlias : Text) (maxBytes : Nat) : ClientCall (List UInt8)
  | heldToken : ClientCall (Option Text)
  | holdToken (capabilityId : Text) : ClientCall Unit

abbrev PilotProg := Prog ClientCall PilotError

def pilotCheck {α : Type} (x : Except PilotError α) : PilotProg α := .ret x

/-- An error of the fetcher, raised through the pilot. -/
def fetching {α : Type} (x : Except FetchError α) : PilotProg α := .ret (x.mapError .fetch)

/-! ### `ensure_url` -/

/-- The requests of `ensure_url` for a URL and its target. -/
def ensureTarget (env : Env) (fetch : Text → PilotProg FetchedContent) (req : EnsureRequest)
    (url : Text) (target : Target) : PilotProg EnsureUrlResult := do
  let result (assetId : Text) (cacheHit : Bool) : EnsureUrlResult :=
    { assetId, qualifiedAlias := target.qualified, cacheHit, bucket := target.bucket
      partitionId := target.partitionId }
  let existing ← .perform (.resolve target.bucket target.relativeAlias)
  match existing with
  | some asset =>
    if req.noCache = false then return result asset.assetId true
    else
      let content ← fetch url
      pilotCheck (raiseIf (some (computeChecksum env content.data) ≠ asset.checksum)
        (.fetch .contentMismatch))
      return result asset.assetId false
  | none =>
    let content ← fetch url
    let capabilityId ← .perform
      (.mint .write (target.bucket ++ '/' :: target.partitionId) req.capabilityTtlSeconds)
    let asset ← .perform (.put capabilityId target.qualified content.data
      (if content.mime = [] then none else some content.mime))
    return result asset.assetId false

/-- `ensure_url`, over rules and a fetcher that may raise. -/
def ensureUrlCalls (lib : Urllib) (env : Env)
    (evaluate : NormalizedUrl → Except PilotError (Option RuleMatch))
    (fetch : Text → PilotProg FetchedContent) (req : EnsureRequest) :
    PilotProg EnsureUrlResult := do
  let normalized ← fetching (normalizeUrl lib req.url)
  let found ← pilotCheck (evaluate normalized)
  let target ← fetching (targetOf env [fun _ => found] req normalized)
  ensureTarget env fetch req normalized.canonical target

/-! ### `pilot.py` -/

/-- `IMAGE_MIMES`. -/
def imageMimes : List Text := ["image/jpeg".toList, "image/tiff".toList, "image/webp".toList]

/-- `s.removeprefix(p)`. -/
def removePrefix (p s : Text) : Text := if p.isPrefixOf s then s.drop p.length else s

/-- `GallicaPolicy.match`. -/
def GallicaPolicy.matchUrl (checks : NetlocChecks) (url : NormalizedUrl) :
    Except PilotError (Option RuleMatch) := do
  let target ← GallicaPolicy.require checks url.canonical
  let relativeAlias ← (target.relativeAlias checks).mapError .fetch
  return some { mirrorId := pilotPartition,
                aliases := [removePrefix (pilotPartition ++ ['/']) relativeAlias] }

structure CachedImage where
  data : List UInt8
  mime : Text
  checksum : Text

/-- `PilotCache`. -/
structure PilotCache where
  checks : NetlocChecks
  lower : Text → Text
  env : Env
  maxBytes : Nat

namespace PilotCache

variable (cache : PilotCache)

/-- The library that the pilot uses. -/
def lib : Urllib := urllib cache.checks cache.lower

/-- `_ApprovedFetcher.fetch`. -/
def approvedFetch (url : Text) : PilotProg FetchedContent := do
  let _ ← pilotCheck (GallicaPolicy.require cache.checks url)
  let content ← .perform (.fetch url)
  pilotCheck (raiseIf (cache.maxBytes < content.data.length)
    (.upstream "origin image exceeds pilot byte limit"))
  pilotCheck (raiseIf (content.mime ∉ imageMimes)
    (.upstream "origin did not return a supported image content type"))
  return content

/-- `_read_token`. -/
def readToken (stale : Option Text) : PilotProg Text := do
  let held ← .perform .heldToken
  match held with
  | some token =>
    if some token = stale then mintToken else return token
  | none => mintToken
where
  mintToken : PilotProg Text := do
    let token ← .perform (.mint .read ("cache/".toList ++ pilotPartition) 300)
    let _ ← .perform (.holdToken token)
    return token

/-- `_backend_error`. -/
def backendError (status : Nat) (retryAfter : Option Text) : PilotError :=
  if status = 429 ∨ status = 503 then
    .cacheBackend 503 (match retryAfter with
      | some retry =>
        if retry ≠ [] ∧ retry.all Char.isDigit = true then some retry else some "1".toList
      | none => some "1".toList)
  else if status = 409 ∨ status = 410 then .cacheBackend 409 (some "1".toList)
  else .cacheBackend (if status = 413 then 413 else 502) none

/-- The handlers of a request to the asset store. -/
def backend {α : Type} : PilotError → PilotProg α
  | .assetStore _ status retryAfter => .raise (backendError status retryAfter)
  | .httpError => .raise (.cacheBackend 503 (some "1".toList))
  | e => .raise e

/-- `target.relative_alias`. -/
def relativeAlias (target : PilotTarget) : PilotProg Text :=
  fetching (target.relativeAlias cache.checks)

/-- The arguments of the `ensure_url` of a target. -/
def requestFor (target : PilotTarget) (noCache : Bool) : EnsureRequest :=
  { url := target.fetchUrl, noCache, capabilityTtlSeconds := 300 }

/-- What `preload` does after a conflict: a concurrent writer may have committed after the
lookup. -/
def recover (target : PilotTarget) (retryAfter : Option Text) : PilotProg EnsureUrlResult := do
  let aliasName ← cache.relativeAlias target
  let existing ← Prog.tryCatch (.perform (.resolve "cache".toList aliasName)) backend
  match existing with
  | some asset =>
    return { assetId := asset.assetId, qualifiedAlias := "cache/".toList ++ aliasName,
             cacheHit := true
             bucket := "cache".toList, partitionId := pilotPartition }
  | none => .raise (backendError 409 retryAfter)

/-- The handlers of `preload`. -/
def preloadFailed (target : PilotTarget) : PilotError → PilotProg EnsureUrlResult
  | .assetStore _ 409 retryAfter => cache.recover target retryAfter
  | e => backend e

/-- `preload`. -/
def preload (url : Text) (noCache : Bool) : PilotProg EnsureUrlResult := do
  let target ← pilotCheck (GallicaPolicy.require cache.checks url)
  Prog.tryCatch
    (ensureUrlCalls cache.lib cache.env (GallicaPolicy.matchUrl cache.checks) cache.approvedFetch
      (requestFor target noCache)) (cache.preloadFailed target)

/-- The object read of `read`: a capability that is refused is minted anew, once. -/
def readObject (aliasName : Text) : PilotProg (List UInt8) := do
  let token ← readToken none
  Prog.tryCatch (.perform (.read token ("cache/".toList ++ aliasName) cache.maxBytes)) fun e =>
    match e with
    | .assetStore _ 403 _ => do
      let fresh ← readToken (some token)
      .perform (.read fresh ("cache/".toList ++ aliasName) cache.maxBytes)
    | e => .raise e

/-- `read`. -/
def read (target : PilotTarget) : PilotProg CachedImage :=
  Prog.tryCatch (do
    let aliasName ← cache.relativeAlias target
    let asset ← .perform (.resolve "cache".toList aliasName)
    let asset ← pilotCheck (someOr asset (.cacheMiss "image is not cached; preload it first"))
    let size ← pilotCheck (someOr asset.sizeBytes (.cacheBackend 502 none))
    pilotCheck (raiseIf (size < 0) (.cacheBackend 502 none))
    pilotCheck (raiseIf (cache.maxBytes < size) (.cacheBackend 413 none))
    let mime ← pilotCheck (someOr asset.mime (.cacheBackend 502 none))
    pilotCheck (raiseIf (mime ∉ imageMimes) (.cacheBackend 502 none))
    let data ← cache.readObject aliasName
    let checksum := computeChecksum cache.env data
    pilotCheck (raiseIf ((data.length : Int) ≠ size ∨ some checksum ≠ asset.checksum)
      (.cacheBackend 502 none))
    return { data, mime, checksum }) fun e =>
    match e with
    | .assetStore _ 404 _ => .raise (.cacheMiss "image is not cached; preload it first")
    | .assetStore _ 410 _ => .raise (.cacheMiss "image is not cached; preload it first")
    | e => backend e

end PilotCache

/-! ### The policy, asked about its own URL -/

section Policy

variable {checks : NetlocChecks} {lower : Text → Text} {raw host path : Text} {t : PilotTarget}

theorem hasStrayPercent_plain (h : '%' ∉ path) : hasStrayPercent path = false := by
  induction path with
  | nil => rfl
  | cons c rest ih =>
    simp only [List.mem_cons, not_or] at h
    rw [hasStrayPercent, ih h.2, beq_eq_false_iff_ne.mpr (Ne.symm h.1)]
    rfl

theorem Approved.not_percent (h : Approved host path) : '%' ∉ path :=
  fun hmem => (plain_ne (h.plain.2 _ hmem)).1 rfl

theorem Approved.unquote_path (h : Approved host path) : unquote path = path := if_neg h.not_percent

theorem Approved.lower_host (h : Approved host path) : host.map Char.toLower = host := by
  obtain ⟨P, hmem, -⟩ := h
  have hall : ∀ p ∈ policies, p.1.map Char.toLower = p.1 := by decide
  exact hall _ hmem

/-- The characters of an approved URL. -/
theorem Approved.url_plain (h : Approved host path) :
    ∀ c ∈ secureUrl host path, isPlain c = true := by
  have hscheme : ∀ c ∈ "https".toList, isPlain c = true := by decide
  intro c hc
  rw [secureUrl] at hc
  simp only [List.mem_append, List.mem_cons] at hc
  rcases hc with hc | rfl | rfl | rfl | hc | hc
  · exact hscheme c hc
  · decide
  · decide
  · decide
  · have hhost := h.plain.1 c hc
    simp only [isPlainHost, Bool.and_eq_true] at hhost
    exact hhost.1
  · exact h.plain.2 c hc

/-- The policy approves an approved URL that is not too long. -/
theorem require_secure (h : Approved host path) (hlength : (secureUrl host path).length ≤ 2048) :
    GallicaPolicy.require checks (secureUrl host path) =
      .ok { originUrl := secureUrl host path, path, host } := by
  obtain ⟨P, hmem, hmatch⟩ := id h
  have hne : secureUrl host path ≠ [] := by simp [secureUrl]
  have hplain := h.url_plain
  have hchars : (secureUrl host path).all (fun c => 33 ≤ c.toNat && c.toNat ≤ 126) = true := by
    rw [List.all_eq_true]
    intro c hc
    simpa using plain_bounds (hplain c hc)
  have hquery : '?' ∉ secureUrl host path := fun hc => (plain_ne (hplain _ hc)).2.1 rfl
  have hfragment : '#' ∉ secureUrl host path := fun hc => (plain_ne (hplain _ hc)).2.2 rfl
  have hrmatch : P.rmatch path = true := (RegularExpression.rmatch_iff_matches' _ _).mpr hmatch
  have hunquote := h.unquote_path
  rw [GallicaPolicy.require, urlsplit_secure h]
  simp only [hne, hchars, h.lower_host, lookup_policies.mpr hmem, hquery, hfragment,
    hasStrayPercent_plain h.not_percent, escapedBytes_nil h.not_percent, hunquote, hrmatch,
    secureUrl_eq]
  simp [raiseIf, hlength]

/-- An approved path does not end in a slash. -/
theorem Approved.last_ne (h : Approved host path) : path.getLast? ≠ some '/' := by
  obtain ⟨rest, rfl, hgood⟩ := h.segments
  intro hlast
  obtain ⟨front, hfront⟩ := List.getLast?_eq_some_iff.mp hlast
  have hsplit : ('/' :: ['/'].intercalate ("iiif".toList :: rest)).splitOn '/' = [] ::
      "iiif".toList :: rest := by
    rw [show ∀ s : Text, '/' :: s = [] ++ '/' :: s from fun _ => rfl, List.splitOn_append_cons_self,
      List.splitOn_intercalate '/' (fun s hs => (hgood s hs).1) (List.cons_ne_nil _ _)]
    rfl
  rw [hfront, List.splitOn_append_cons_self, List.splitOn_nil] at hsplit
  have hmem : [] ∈ "iiif".toList :: rest := by
    have hends := congrArg List.getLast? hsplit
    rw [List.getLast?_append, List.getLast?_singleton, Option.some_or,
      List.getLast?_cons_cons] at hends
    exact List.mem_of_getLast? hends.symm
  exact (hgood [] hmem).2 (.inl rfl)

theorem normalizeUrl_secure (laws : (urllib checks lower).LowerLaws) (h : Approved host path) :
    normalizeUrl (urllib checks lower) (secureUrl host path) =
      .ok { scheme := "https".toList, host, port := none, path, query := [] } := by
  obtain ⟨P, hmem, -⟩ := id h
  obtain ⟨below, hbelow⟩ := h.path_cons
  have hplain := h.url_plain
  have hstrip : stripSpace (secureUrl host path) = secureUrl host path := by
    have hspace : ∀ c ∈ secureUrl host path, isSpace c = false :=
      fun c hc => plain_not_space (hplain c hc)
    rw [stripSpace, strip, dropWhile_eq_self_of_forall hspace, rdropWhile_eq_self_of_forall hspace]
  have hne : secureUrl host path ≠ [] := by simp [secureUrl]
  have hscheme : lower "https".toList = "https".toList :=
    (laws.ascii "https".toList (by decide)).trans (by decide)
  have hlower : lower host = host := by
    refine (laws.ascii host fun c hc => ?_).trans h.lower_host
    have hall : ∀ p ∈ policies, ∀ c ∈ p.1, c.toNat < 128 := by decide
    exact hall _ hmem c hc
  have hinfo : hostinfo host = (host, []) := by
    have hall : ∀ p ∈ policies, hostinfo p.1 = (p.1, []) := by decide
    exact hall _ hmem
  have hzone : host.takeWhile (· != '%') = host ∧ host.dropWhile (· != '%') = [] ∧ host ≠ [] := by
    have hall : ∀ p ∈ policies, p.1.takeWhile (· != '%') = p.1 ∧ p.1.dropWhile (· != '%') = [] ∧
        p.1 ≠ [] := by
      decide
    exact hall _ hmem
  have hhostname : hostname lower host = some host := by
    rw [hostname, hinfo, if_neg hzone.2.2, hzone.1, hzone.2.1, hlower, List.append_nil]
  have hport : port host = .ok none := by
    rw [port, hinfo]
    rfl
  have hunquote := h.unquote_path
  have hpath : path ≠ [] := by simp [hbelow]
  have htidy : tidyPath path = path := by
    simp only [tidyPath, if_neg hpath, if_neg (not_and_of_not_right _ h.last_ne)]
  have hsplit : (urllib checks lower).urlsplit (stripSpace (secureUrl host path)) =
      .ok { scheme := "https".toList, hostname := hostname lower host, port := port host, path,
            query := [] } := by
    rw [hstrip]
    simp only [urllib, urlsplit_secure h]
    rfl
  refine normalizeUrl_eq_ok.mpr ⟨by rwa [hstrip], _, none, hsplit, ?_, ?_, hport, ?_⟩
  · show lower "https".toList ∈ _
    rw [hscheme]
    exact List.mem_cons_of_mem _ List.mem_cons_self
  · show (hostname lower host).getD [] ≠ []
    rw [hhostname]
    exact hzone.2.2
  · show _ = NormalizedUrl.mk (lower "https".toList) (lower ((hostname lower host).getD []))
      (keptPort _ none) (tidyPath (unquote path)) []
    rw [hscheme, hhostname, hunquote, htidy, Option.getD_some, hlower]
    rfl

end Policy

/-! ### The requests of a target -/

/-- The request names no other alias. -/
def ClientCall.Names (a : Text) : (β : Type) → ClientCall β → Prop
  | _, .resolve space name => space = "cache".toList ∧ name = a
  | _, .put _ qualified _ _ => qualified = "cache/".toList ++ a
  | _, .read _ qualified _ => qualified = "cache/".toList ++ a
  | _, _ => True

/-- No refusal of the policy. -/
def Undenied (e : PilotError) : Prop := ∀ message, e ≠ .denied message

/-- Whatever the origin and the store reply, `preload` works under the alias, and on a miss it
stores the bytes that it has fetched under it. -/
structure PilotCache.PreloadsUnder (cache : PilotCache) (raw : Text) (t : PilotTarget) (a : Text)
    (noCache : Bool) : Prop where
  names : (cache.preload raw noCache).All (ClientCall.Names a)
    fun res => res.qualifiedAlias = "cache/".toList ++ a
  looks : ∃ k, cache.preload raw noCache = .call (.resolve "cache".toList a) k
  undenied : (cache.preload raw noCache).OnlyRaises Undenied
  stores :
    ∀ (σ : Type) (sem : (β : Type) → ClientCall β → EStateM PilotError σ β) (s0 s1 s2 s3 s4 : σ)
    (content : FetchedContent) (token : Text) (asset : Asset),
    sem _ (.resolve "cache".toList a) s0 = .ok none s1 →
      sem _ (.fetch t.fetchUrl) s1 = .ok content s2 →
    content.data.length ≤ cache.maxBytes → content.mime ∈ imageMimes →
    sem _ (.mint .write ("cache/".toList ++ pilotPartition) 300) s2 = .ok token s3 →
    sem _ (.put token ("cache/".toList ++ a) content.data (some content.mime)) s3 = .ok asset s4 →
    (cache.preload raw noCache).run sem s0 = .ok
      { assetId := asset.assetId, qualifiedAlias := "cache/".toList ++ a, cacheHit := false
        bucket := "cache".toList, partitionId := pilotPartition } s4

/-- `preload` and `read` agree on a target of a URL. -/
structure PilotCache.Agrees (cache : PilotCache) (raw : Text) (t : PilotTarget) : Prop where
  required : ∃ t', GallicaPolicy.require cache.checks t.fetchUrl = .ok t'
  canonical : ∃ n, normalizeUrl cache.lib t.fetchUrl = .ok n ∧ n.canonical = t.fetchUrl
  preloads : ∃ a, t.relativeAlias cache.checks = .ok a ∧
    (∀ noCache, cache.PreloadsUnder raw t a noCache) ∧
    (cache.read t).All (ClientCall.Names a) (fun _ => True) ∧
    ∃ k, cache.read t = .call (.resolve "cache".toList a) k

/-- The URL names the full image of a document on the legacy host by a path of more than 2017
characters, so that the URL of the current endpoint is longer than the policy allows. -/
def Outgrows (checks : NetlocChecks) (raw : Text) : Prop :=
  ∃ parts, urlsplit checks raw = .ok parts ∧ parts.netloc.map Char.toLower = legacyHost ∧
    legacyArk (unquote parts.path) ≠ none ∧ 2017 < (unquote parts.path).length

section Agreement

variable {cache : PilotCache} {raw a : Text} {t : PilotTarget} {noCache : Bool}

/-- A rendition is its own rendition. -/
theorem PilotTarget.rendition_again (t : PilotTarget) :
    PilotTarget.rendition { originUrl := t.fetchUrl, path := t.rendition.2,
                            host := t.rendition.1 } =
      t.rendition := by
  rcases full_or_other t with ⟨hhost, ark, hark⟩ | hother
  · rw [rendition_of_full hhost hark]
    exact rendition_of_other fun hv3 => absurd hv3 v3Host_ne
  · rw [rendition_of_other hother]
    exact rendition_of_other hother

/-- The canonical URL of a rendition is the URL that is fetched. -/
theorem canonical_secure {host path : Text} :
    NormalizedUrl.canonical { scheme := "https".toList, host, port := none, path, query := [] } =
      secureUrl host path := by
  rw [← secureUrl_eq]
  rfl

/-- The rule of the pilot finds the alias of the target. -/
theorem PilotTarget.Valid.matchUrl_eq {checks : NetlocChecks} (h : t.Valid)
    (hlength : t.fetchUrl.length ≤ 2048) :
    GallicaPolicy.matchUrl checks
        { scheme := "https".toList, host := t.rendition.1, port := none, path := t.rendition.2,
          query := [] } =
      .ok (some { mirrorId := pilotPartition
                  aliases := [removePrefix (pilotPartition ++ ['/'])
                    (aliasOf t.rendition.1 t.rendition.2)] }) := by
  have happroved := h.rendition_approved
  rw [h.fetchUrl_eq] at hlength
  have hvalid : PilotTarget.Valid { originUrl := secureUrl t.rendition.1 t.rendition.2,
                                    path := t.rendition.2, host := t.rendition.1 } :=
    ⟨happroved, rfl⟩
  have hagain := t.rendition_again
  rw [h.fetchUrl_eq] at hagain
  rw [GallicaPolicy.matchUrl, canonical_secure, require_secure happroved hlength]
  simp only [bind, Except.bind, hvalid.relativeAlias_eq, hagain]
  rfl

theorem removePrefix_append {p s : Text} : removePrefix p (p ++ s) = s := by
  rw [removePrefix, if_pos (List.isPrefixOf_iff_prefix.mpr (List.prefix_append p s)),
    List.drop_left]

/-- The prefix that the rule removes is put back. -/
theorem aliasOf_prefix {host path : Text} :
    pilotPartition ++ '/' :: removePrefix (pilotPartition ++ ['/']) (aliasOf host path) =
      aliasOf host path := by
  have heq : aliasOf host path = (pilotPartition ++ ['/']) ++
      ((if host = legacyHost then [] else host ++ ['/']) ++ path.dropWhile isSlash) := by
    simp [aliasOf]
  rw [heq, removePrefix_append]
  simp

/-- The target of `ensure_url`. -/
def pilotTarget (a : Text) : Target :=
  { bucket := "cache".toList, partitionId := pilotPartition, relativeAlias := a }

theorem pilotTarget_qualified : (pilotTarget a).qualified = "cache/".toList ++ a := by
  have hslash : "cache/".toList = "cache".toList ++ ['/'] := by decide
  rw [hslash]
  simp [pilotTarget, Target.qualified]

/-- `preload` of an approved URL, without what the policy has checked. -/
theorem preload_eq (laws : cache.lib.LowerLaws) (h : GallicaPolicy.require cache.checks raw = .ok t)
    (hlength : t.fetchUrl.length ≤ 2048) :
    cache.preload raw noCache = Prog.tryCatch
      (ensureTarget cache.env cache.approvedFetch (PilotCache.requestFor t noCache) t.fetchUrl
        (pilotTarget (aliasOf t.rendition.1 t.rendition.2))) (cache.preloadFailed t) := by
  have hvalid := require_valid h
  have hnormal := normalizeUrl_secure laws hvalid.rendition_approved
  have hcalls :
      ensureUrlCalls cache.lib cache.env (GallicaPolicy.matchUrl cache.checks) cache.approvedFetch
      (PilotCache.requestFor t noCache) =
        ensureTarget cache.env cache.approvedFetch (PilotCache.requestFor t noCache)
        t.fetchUrl (pilotTarget (aliasOf t.rendition.1 t.rendition.2)) := by
    rw [ensureUrlCalls, PilotCache.lib]
    show (fetching (normalizeUrl _ t.fetchUrl) >>= _) = _
    rw [hvalid.fetchUrl_eq, hnormal]
    show (pilotCheck (GallicaPolicy.matchUrl cache.checks _) >>= _) = _
    rw [hvalid.matchUrl_eq hlength]
    show ensureTarget _ _ _ (NormalizedUrl.canonical _)
      { bucket := _, partitionId := _, relativeAlias := _ } = _
    rw [canonical_secure, aliasOf_prefix]
    rfl
  rw [PilotCache.preload, h]
  show Prog.tryCatch _ _ = _
  rw [hcalls]

theorem secureUrl_length (host path : Text) :
    (secureUrl host path).length = 8 + host.length + path.length := by
  simp [secureUrl]
  omega

/-- An approved URL that is not rewritten does not grow. -/
theorem length_originUrl_le {checks : NetlocChecks} (h : GallicaPolicy.require checks raw = .ok t) :
    t.originUrl.length ≤ raw.length := by
  obtain ⟨-, parts, hparts, hscheme, hhost, hpath, hvalid⟩ := require_parts h
  have hnetloc : parts.netloc ≠ [] := by
    rintro hnil
    rw [hnil] at hhost
    exact hvalid.approved.host_segment.1.2 (.inl hhost)
  have hlength := length_urlsplit hparts (by simp [hscheme]) hnetloc
  have hdecoded : t.path.length ≤ parts.path.length := by
    rw [hpath]
    exact length_unquote_le
  rw [hvalid.originUrl, secureUrl_length, hhost, List.length_map]
  rw [hscheme] at hlength
  have hfive : "https".toList.length = 5 := by decide
  omega

/-- The URL of a target is too long exactly when the full image of the legacy host has outgrown
it. -/
theorem length_fetchUrl_iff {checks : NetlocChecks} (h : GallicaPolicy.require checks raw = .ok t) :
    t.fetchUrl.length ≤ 2048 ↔ ¬Outgrows checks raw := by
  obtain ⟨hraw, parts, hparts, -, hhost, hpath, hvalid⟩ := require_parts h
  have houtgrows : Outgrows checks raw ↔
      t.host = legacyHost ∧ legacyArk t.path ≠ none ∧ 2017 < t.path.length := by
    rw [hhost, hpath, Outgrows, hparts]
    simp
  rw [houtgrows, hvalid.fetchUrl_eq, secureUrl_length]
  rcases full_or_other t with ⟨hlegacy, ark, hark⟩ | hother
  · have hlength : t.path.length = 29 + ark.length := by
      rw [(legacyArk_eq_some.mp hark).2, List.length_append, List.length_append,
        show legacyFront.length = 6 from rfl, show legacyEnd.length = 23 by decide]
      omega
    rw [rendition_of_full hlegacy hark]
    simp only [List.length_append, hlegacy, hark]
    have hsizes : v3Host.length = 14 ∧ "/iiif/image/v3/".toList.length = 15 ∧
        "/full/max/0/default.jpg".toList.length = 23 := by decide
    rw [hsizes.1, hsizes.2.1, hsizes.2.2]
    simp
    omega
  · rw [rendition_of_other hother, ← secureUrl_length, ← hvalid.originUrl]
    refine iff_of_true ((length_originUrl_le h).trans hraw) ?_
    rintro ⟨hlegacy, hark, -⟩
    exact hark (hother hlegacy)

/-! #### The requests, one by one -/

open PilotCache

/-- The results that `preload` may return. -/
def Under (a : Text) (res : EnsureUrlResult) : Prop := res.qualifiedAlias = "cache/".toList ++ a

theorem backend_all {α : Type} {Q : α → Prop} (e : PilotError) :
    (backend e : PilotProg α).All (ClientCall.Names a) Q := by
  cases e <;> exact fun _ h => by cases h

theorem check_all {α : Type} {x : Except PilotError α} :
    (pilotCheck x).All (ClientCall.Names a) fun _ => True :=
  .ret

theorem approvedFetch_all {url : Text} :
    (cache.approvedFetch url).All (ClientCall.Names a) fun _ => True := by
  refine .bind check_all fun _ _ => .bind (.perform trivial) fun content _ => ?_
  exact .bind check_all fun _ _ => .bind check_all fun _ _ => .pure trivial

theorem ensureTarget_all {req : EnsureRequest} {url : Text} :
    (ensureTarget cache.env cache.approvedFetch req url (pilotTarget a)).All (ClientCall.Names a)
      (Under a) := by
  refine .bind (.perform ⟨rfl, rfl⟩) fun existing _ => ?_
  cases existing with
  | none =>
    refine .bind approvedFetch_all fun content _ => .bind (.perform trivial) fun token _ => ?_
    exact .bind (.perform pilotTarget_qualified) fun asset _ => .pure pilotTarget_qualified
  | some asset =>
    refine .ite (.pure pilotTarget_qualified) (.bind approvedFetch_all fun content _ => ?_)
    exact .bind check_all fun _ _ => .pure pilotTarget_qualified

theorem recover_all (ha : t.relativeAlias cache.checks = .ok a) {retryAfter : Option Text} :
    (cache.recover t retryAfter).All (ClientCall.Names a) (Under a) := by
  rw [recover, relativeAlias, ha]
  show Prog.All _ _ (Prog.tryCatch _ _ >>= _)
  refine .bind (.tryCatch (.perform ⟨rfl, rfl⟩) fun e => backend_all e) fun existing _ => ?_
  cases existing with
  | none => exact fun _ h => by cases h
  | some asset => exact .pure rfl

theorem preloadFailed_all (ha : t.relativeAlias cache.checks = .ok a) (e : PilotError) :
    (cache.preloadFailed t e).All (ClientCall.Names a) (Under a) := by
  unfold preloadFailed
  split
  · exact recover_all ha
  · exact backend_all _

theorem readToken_all {stale : Option Text} :
    (readToken stale).All (ClientCall.Names a) fun _ => True := by
  have hmint : readToken.mintToken.All (ClientCall.Names a) fun _ => True :=
    .bind (.perform trivial) fun _ _ => .bind (.perform trivial) fun _ _ => .pure trivial
  refine .bind (.perform trivial) fun held _ => ?_
  cases held with
  | none => exact hmint
  | some token => exact .ite hmint (.pure trivial)

theorem readObject_all : (cache.readObject a).All (ClientCall.Names a) fun _ => True := by
  refine .bind readToken_all fun token _ => .tryCatch (.perform rfl) fun e => ?_
  split
  · exact .bind readToken_all fun fresh _ => .perform rfl
  · exact fun _ h => by cases h

theorem read_all (ha : t.relativeAlias cache.checks = .ok a) :
    (cache.read t).All (ClientCall.Names a) fun _ => True := by
  refine .tryCatch ?_ fun e => ?_
  · rw [relativeAlias, ha]
    show Prog.All _ _ (Prog.perform _ >>= _)
    refine .bind (.perform ⟨rfl, rfl⟩) fun asset _ => .bind check_all fun asset _ => ?_
    refine .bind check_all fun size _ => .bind check_all fun _ _ => .bind check_all fun _ _ => ?_
    refine .bind check_all fun mime _ => .bind check_all fun _ _ =>
      .bind readObject_all fun data _ => ?_
    exact .bind check_all fun _ _ => .pure trivial
  · split
    · exact fun _ h => by cases h
    · exact fun _ h => by cases h
    · exact backend_all _

/-! #### No refusal -/

theorem backend_undenied {α : Type} {e : PilotError} (he : Undenied e) :
    (backend e : PilotProg α).OnlyRaises Undenied := by
  unfold backend
  split
  · refine .raise fun message heq => ?_
    unfold backendError at heq
    split_ifs at heq
  · exact .raise fun message heq => by cases heq
  · exact .raise he

theorem approvedFetch_undenied {url : Text}
    (h : ∃ t', GallicaPolicy.require cache.checks url = .ok t') :
    (cache.approvedFetch url).OnlyRaises Undenied := by
  obtain ⟨t', ht⟩ := h
  have hcheck : ∀ {c : Prop} [Decidable c] {message : String},
      (pilotCheck (raiseIf c (PilotError.upstream message))).OnlyRaises Undenied := by
    intro c _ message
    refine .ret fun e he => ?_
    obtain ⟨-, rfl⟩ := raiseIf_eq_error.mp he
    exact fun _ heq => by cases heq
  refine .bind (.ret fun e he => ?_) fun _ => .bind .perform fun content => ?_
  · rw [ht] at he
    cases he
  · exact .bind hcheck fun _ => .bind hcheck fun _ => .pure

theorem ensureTarget_undenied {req : EnsureRequest} {url : Text} {target : Target}
    (h : ∃ t', GallicaPolicy.require cache.checks url = .ok t') :
    (ensureTarget cache.env cache.approvedFetch req url target).OnlyRaises Undenied := by
  refine .bind .perform fun existing => ?_
  cases existing with
  | none =>
    exact .bind (approvedFetch_undenied h) fun content => .bind .perform fun token =>
      .bind .perform fun asset => .pure
  | some asset =>
    refine .ite .pure (.bind (approvedFetch_undenied h) fun content =>
      .bind (.ret fun e he => ?_) fun _ => .pure)
    obtain ⟨-, rfl⟩ := raiseIf_eq_error.mp he
    exact fun _ heq => by cases heq

theorem preloadFailed_undenied (ha : t.relativeAlias cache.checks = .ok a) {e : PilotError}
    (he : Undenied e) :
    (cache.preloadFailed t e).OnlyRaises Undenied := by
  unfold preloadFailed
  split
  · rw [recover, relativeAlias, ha]
    show Prog.OnlyRaises _ (Prog.tryCatch _ _ >>= _)
    refine .bind (.tryCatch .perform fun e he => backend_undenied he) fun existing => ?_
    cases existing with
    | none =>
      refine .raise fun message heq => ?_
      unfold backendError at heq
      split_ifs at heq
    | some asset => exact .pure
  · exact backend_undenied he

/-! #### Preloads -/

theorem mem_imageMimes {mime : Text} (h : mime ∈ imageMimes) : mime ≠ [] := by
  have hall : ∀ m ∈ imageMimes, m ≠ [] := by decide
  exact hall mime h

/-- On a miss, the bytes of the origin are stored under the alias. -/
theorem ensureTarget_run {σ : Type} {sem : (β : Type) → ClientCall β → EStateM PilotError σ β}
    {s0 s1 s2 s3 s4 : σ} {content : FetchedContent} {token url : Text} {asset : Asset}
    {req : EnsureRequest}
    (hreq : req.capabilityTtlSeconds = 300)
    (h : ∃ t', GallicaPolicy.require cache.checks url = .ok t')
    (hresolve : sem _ (.resolve "cache".toList a) s0 = .ok none s1)
    (hfetch : sem _ (.fetch url) s1 = .ok content s2)
    (hsize : content.data.length ≤ cache.maxBytes) (hmime : content.mime ∈ imageMimes)
    (hmint : sem _ (.mint .write ("cache/".toList ++ pilotPartition) 300) s2 = .ok token s3)
    (hput : sem _ (.put token ("cache/".toList ++ a) content.data (some content.mime)) s3 =
      .ok asset s4) :
    (ensureTarget cache.env cache.approvedFetch req url (pilotTarget a)).run sem s0 = .ok
      { assetId := asset.assetId, qualifiedAlias := "cache/".toList ++ a, cacheHit := false
        bucket := "cache".toList, partitionId := pilotPartition } s4 := by
  obtain ⟨t', ht⟩ := h
  have hfetched : (cache.approvedFetch url).run sem s1 = .ok content s2 := by
    simp only [approvedFetch, ht, pilotCheck, Prog.run_bind, Prog.run_ret, Prog.run_perform,
      Prog.run_pure, bind_eq_ok, attempt_eq_ok, raiseIf_eq_ok, not_lt, not_not, pure_eq_ok]
    exact ⟨t', s1, ⟨rfl, rfl⟩, content, s2, hfetch, (), s2, ⟨hsize, rfl⟩, (), s2,
      ⟨hmime, rfl⟩, rfl, rfl⟩
  have hscope : "cache".toList ++ '/' :: pilotPartition = "cache/".toList ++ pilotPartition := by
    decide
  have hmint' :
      sem _ (.mint .write ("cache".toList ++ '/' :: pilotPartition) req.capabilityTtlSeconds) s2 =
      .ok token s3 := by
    rw [hscope, hreq]
    exact hmint
  have hput' : sem _ (.put token (pilotTarget a).qualified content.data
      (if content.mime = [] then none else some content.mime)) s3 = .ok asset s4 := by
    rw [pilotTarget_qualified, if_neg (mem_imageMimes hmime)]
    exact hput
  rw [ensureTarget, Prog.run_bind, Prog.run_perform]
  refine bind_eq_ok.mpr ⟨none, s1, hresolve, ?_⟩
  show (cache.approvedFetch url >>= _).run sem s1 = _
  rw [Prog.run_bind]
  refine bind_eq_ok.mpr ⟨content, s2, hfetched, ?_⟩
  rw [Prog.run_bind, Prog.run_perform]
  refine bind_eq_ok.mpr ⟨token, s3, hmint', ?_⟩
  rw [Prog.run_bind, Prog.run_perform]
  refine bind_eq_ok.mpr ⟨asset, s4, hput', ?_⟩
  rw [Prog.run_pure, pure_eq_ok, pilotTarget_qualified]
  exact ⟨rfl, rfl⟩

theorem preloadsUnder (laws : cache.lib.LowerLaws)
    (h : GallicaPolicy.require cache.checks raw = .ok t) (hlength : t.fetchUrl.length ≤ 2048) :
    cache.PreloadsUnder raw t (aliasOf t.rendition.1 t.rendition.2) noCache := by
  have hvalid := require_valid h
  have ha : t.relativeAlias cache.checks = .ok (aliasOf t.rendition.1 t.rendition.2) :=
    hvalid.relativeAlias_eq
  have hagain : ∃ t', GallicaPolicy.require cache.checks t.fetchUrl = .ok t' := by
    rw [hvalid.fetchUrl_eq] at hlength ⊢
    exact ⟨_, require_secure hvalid.rendition_approved hlength⟩
  have hpreload := @preload_eq _ _ _ noCache laws h hlength
  refine ⟨?_, ?_, ?_, ?_⟩
  · rw [hpreload]
    exact .tryCatch ensureTarget_all fun e => preloadFailed_all ha e
  · rw [hpreload]
    exact ⟨_, rfl⟩
  · rw [hpreload]
    exact .tryCatch (ensureTarget_undenied hagain) fun e he => preloadFailed_undenied ha he
  · intro σ sem s0 s1 s2 s3 s4 content token asset hresolve hfetch hsize hmime hmint hput
    rw [hpreload, Prog.run_tryCatch,
      ensureTarget_run rfl hagain hresolve hfetch hsize hmime hmint hput]

/-- `preload` and `read` agree on an approved URL exactly when its rewritten form is not too
long. -/
theorem pilot_agrees_iff (laws : cache.lib.LowerLaws)
    (h : GallicaPolicy.require cache.checks raw = .ok t) :
    cache.Agrees raw t ↔ ¬Outgrows cache.checks raw := by
  have hvalid := require_valid h
  rw [← length_fetchUrl_iff h]
  constructor
  · intro hagrees
    obtain ⟨t', ht'⟩ := hagrees.required
    exact (require_parts ht').1
  · intro hlength
    refine ⟨?_, ?_, aliasOf t.rendition.1 t.rendition.2, hvalid.relativeAlias_eq,
      fun noCache => preloadsUnder laws h hlength, read_all hvalid.relativeAlias_eq, ?_⟩
    · rw [hvalid.fetchUrl_eq] at hlength ⊢
      exact ⟨_, require_secure hvalid.rendition_approved hlength⟩
    · rw [PilotCache.lib, hvalid.fetchUrl_eq]
      exact ⟨_, normalizeUrl_secure laws hvalid.rendition_approved, canonical_secure⟩
    · rw [PilotCache.read, relativeAlias, hvalid.relativeAlias_eq]
      exact ⟨_, rfl⟩

theorem require_long {checks : NetlocChecks} (h : 2048 < raw.length) :
    GallicaPolicy.require checks raw = .error outsidePolicy := by
  rw [GallicaPolicy.require, raiseIf, if_pos (.inr (.inl h))]
  rfl

/-- A URL that has outgrown the policy is refused after it was approved. -/
theorem preload_outgrown (laws : cache.lib.LowerLaws)
    (h : GallicaPolicy.require cache.checks raw = .ok t)
    (hout : Outgrows cache.checks raw) :
    cache.preload raw noCache = .ret (.error outsidePolicy) := by
  have hvalid := require_valid h
  have hlong : 2048 < (secureUrl t.rendition.1 t.rendition.2).length := by
    rw [← hvalid.fetchUrl_eq]
    by_contra hle
    exact (length_fetchUrl_iff h).mp (not_lt.mp hle) hout
  have hcalls :
      ensureUrlCalls cache.lib cache.env (GallicaPolicy.matchUrl cache.checks) cache.approvedFetch
      (requestFor t noCache) = .ret (.error outsidePolicy) := by
    rw [ensureUrlCalls, PilotCache.lib]
    show (fetching (normalizeUrl _ t.fetchUrl) >>= _) = _
    rw [hvalid.fetchUrl_eq, normalizeUrl_secure laws hvalid.rendition_approved]
    show (pilotCheck (GallicaPolicy.matchUrl cache.checks _) >>= _) = _
    rw [GallicaPolicy.matchUrl, canonical_secure, require_long hlong]
    rfl
  rw [preload, h]
  show Prog.tryCatch _ _ = _
  rw [hcalls]
  rfl

end Agreement

/-! ### A document with a long name -/

def plainPilot : PilotCache :=
  { checks := uncheckedNetloc, lower := List.map Char.toLower, env := plainEnv, maxBytes := 16 }

def arkFront : Text := "ark:/12148/".toList

/-- The ark of a document with a name of `n` letters, and the URL of its full image on the legacy
host. -/
def longArk (n : Nat) : Text := arkFront ++ (List.replicate n 'a' ++ "/f1".toList)

def longUrl (n : Nat) : Text := secureUrl legacyHost (legacyFront ++ longArk n ++ legacyEnd)

theorem longArk_mem (n : Nat) : longArk (n + 1) ∈ arkPattern.matches' := by
  have hname : List.replicate (n + 1) 'a' ∈ (many (oneOf alphanumerics)).matches' := by
    have hletter : 'a' ∈ alphanumerics := by decide
    refine mem_mul.mpr ⟨['a'], mem_oneOf.mpr ⟨'a', hletter, rfl⟩, List.replicate n 'a', ?_, rfl⟩
    exact mem_star_oneOf.mpr fun c hc => List.eq_of_mem_replicate hc ▸ hletter
  have hfolio : "f1".toList ∈ folioPattern.matches' :=
    (RegularExpression.rmatch_iff_matches' _ _).mp (by decide)
  exact mem_lit_mul.mpr ⟨_, mem_mul.mpr ⟨_, hname, _, mem_lit_mul.mpr ⟨_, hfolio, rfl⟩, rfl⟩, rfl⟩

theorem longPath_length (n : Nat) : (legacyFront ++ longArk n ++ legacyEnd).length = 43 + n := by
  have hfront : legacyFront.length = 6 := rfl
  have hark : arkFront.length = 11 := by decide
  have hfolio : "/f1".toList.length = 3 := rfl
  have hend : legacyEnd.length = 23 := by decide
  rw [longArk]
  simp only [List.length_append, List.length_replicate]
  rw [hfront, hark, hfolio, hend]
  omega

theorem longUrl_length (n : Nat) : (longUrl n).length = 65 + n := by
  have hhost : legacyHost.length = 14 := rfl
  rw [longUrl, secureUrl_length, longPath_length, hhost]
  omega

/-- The target of the URL, and when the URL has outgrown the policy. -/
theorem longUrl_required {n : Nat} (h : n ≤ 1982) : ∃ t,
    GallicaPolicy.require uncheckedNetloc (longUrl (n + 1)) = .ok t ∧
      (Outgrows uncheckedNetloc (longUrl (n + 1)) ↔ 1974 ≤ n) := by
  have happroved := approved_legacy (longArk_mem n)
  have hlength := longUrl_length (n + 1)
  have hrequire := @require_secure uncheckedNetloc _ _ happroved (by
    rw [longUrl] at hlength
    omega)
  have hlegacy : legacyArk (legacyFront ++ longArk (n + 1) ++ legacyEnd) ≠ none := by
    rw [legacyArk_eq_some.mpr ⟨longArk_mem n, rfl⟩]
    exact Option.some_ne_none _
  refine ⟨_, hrequire, ?_⟩
  rw [Outgrows, longUrl, urlsplit_secure happroved]
  have hunquote := happroved.unquote_path
  constructor
  · rintro ⟨parts, hparts, -, -, hlong⟩
    obtain rfl := Except.ok.inj hparts
    rw [hunquote, longPath_length] at hlong
    omega
  · intro hn
    refine ⟨_, rfl, happroved.lower_host, ?_, ?_⟩
    · rw [hunquote]
      exact hlegacy
    · rw [hunquote, longPath_length]
      omega

theorem plainPilot_laws : plainPilot.lib.LowerLaws where
  idem := asciiUrllib_laws.idem
  ascii := asciiUrllib_laws.ascii
  slash := asciiUrllib_laws.slash
  dot := asciiUrllib_laws.dot
  nonempty := asciiUrllib_laws.nonempty

/-- A short URL is preloaded under the alias that it is read from. -/
theorem pilot_agrees_short : ∃ t, GallicaPolicy.require uncheckedNetloc (longUrl 1) = .ok t ∧
    plainPilot.Agrees (longUrl 1) t := by
  obtain ⟨t, ht, hout⟩ := longUrl_required (Nat.zero_le 1982)
  refine ⟨t, ht, (pilot_agrees_iff plainPilot_laws ht).mpr fun hlong => ?_⟩
  exact absurd (hout.mp hlong) (by decide)

/-- A URL of 2048 characters is approved, and then refused. -/
theorem outgrown_refused : ∃ t, (longUrl 1983).length = 2048 ∧
    GallicaPolicy.require uncheckedNetloc (longUrl 1983) = .ok t ∧
      ¬plainPilot.Agrees (longUrl 1983) t ∧
    plainPilot.preload (longUrl 1983) false = .ret (.error outsidePolicy) := by
  obtain ⟨t, ht, hout⟩ := longUrl_required (le_refl 1982)
  have hlong : Outgrows plainPilot.checks (longUrl 1983) := hout.mpr (by decide)
  refine ⟨t, longUrl_length 1983, ht, ?_, preload_outgrown plainPilot_laws ht hlong⟩
  rintro ⟨⟨t', ht'⟩, -, -⟩
  exact (length_fetchUrl_iff ht).mp (require_parts ht').1 hlong

end AssetStore
