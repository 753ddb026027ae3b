import AssetStore.Api

/-! The fetcher service: it normalizes a URL, derives an alias from it by rewrite rules, and stores
the bytes of a URL that the asset store does not hold yet. -/

namespace AssetStore

open Lib

/-- What a fetch request may raise. -/
inductive FetchError
  | invalidRequest (message : String)
  | contentMismatch
  | upstream
  | assetStore (message : String) (status : Nat)
  | valueError
  | indexError
  deriving DecidableEq, Repr

/-! ### `normalize.py` -/

/-- What `urllib.parse.urlsplit` returns, as far as it is read. -/
structure SplitResult where
  scheme : Text
  hostname : Option Text
  port : Except FetchError (Option Nat)
  path : Text
  query : Text

/-- The text functions of the standard library that the fetcher uses. -/
structure Urllib where
  urlsplit : Text → Except FetchError SplitResult
  unquote : Text → Text
  lower : Text → Text

/-- A canonicalized origin URL split into its addressing parts. -/
structure NormalizedUrl where
  scheme : Text
  host : Text
  port : Option Nat
  path : Text
  query : Text
  deriving DecidableEq

def defaultPort (scheme : Text) : Option Nat :=
  if scheme = "http".toList then some 80 else if scheme = "https".toList then some 443 else none

/-- `NormalizedUrl.canonical`. -/
def NormalizedUrl.canonical (url : NormalizedUrl) : Text :=
  let authority := match url.port with
    | none => url.host
    | some port => url.host ++ ':' :: showInt port
  let base := url.scheme ++ "://".toList ++ authority ++ url.path
  if url.query = [] then base else base ++ '?' :: url.query

/-- `NormalizedUrl.path_segments`. -/
def NormalizedUrl.pathSegments (url : NormalizedUrl) : List Text :=
  (url.path.splitOn '/').filter (· ≠ [])

/-- `normalize_url`. -/
def normalizeUrl (lib : Urllib) (raw : Text) : Except FetchError NormalizedUrl := do
  raiseIf (stripSpace raw = []) (.invalidRequest "URL must be non-empty")
  let parts ← lib.urlsplit (stripSpace raw)
  let scheme := lib.lower parts.scheme
  raiseIf (scheme ∉ ["http".toList, "https".toList])
    (.invalidRequest "unsupported URL scheme; expected http or https")
  raiseIf (parts.hostname.getD [] = []) (.invalidRequest "URL has no host")
  let host := lib.lower (parts.hostname.getD [])
  let port ← parts.port
  let port := if port ≠ none ∧ defaultPort scheme = port then none else port
  let decoded := lib.unquote parts.path
  let path := if decoded = [] then ['/'] else decoded
  let path := if 1 < path.length ∧ path.getLast? = some '/' then path.rdropWhile isSlash else path
  return { scheme, host, port, path, query := parts.query }

/-! ### `rules.py` -/

/-- A cacheable match: the mirror partition and the alias tails. -/
structure RuleMatch where
  mirrorId : Text
  aliases : List Text

/-- The `CacheRule` protocol. -/
abbrev CacheRule := NormalizedUrl → Option RuleMatch

/-- `RuleSet.evaluate`: the first match wins. -/
def evaluate (rules : List CacheRule) (url : NormalizedUrl) : Option RuleMatch :=
  rules.findSome? fun rule => rule url

/-- `_host_matches`: the host or a subdomain of it. -/
def hostMatches (url : NormalizedUrl) (host : Text) : Bool :=
  url.host == host || ('.' :: host).isSuffixOf url.host

/-- `HostPassthroughRule.match`. -/
def hostPassthroughRule (host mirrorId : Text) : CacheRule := fun url =>
  if hostMatches url host = false ∨ url.pathSegments = [] then none
  else
    let tail := ['/'].intercalate url.pathSegments
    some { mirrorId, aliases := [if url.query = [] then tail else tail ++ '?' :: url.query] }

/-! ### `service.py` -/

structure FetchedContent where
  data : List UInt8
  mime : Text

/-- The asset store and the URLs that were fetched from their origin. -/
structure World where
  app : App
  fetched : List Text

abbrev FetchM := EStateM FetchError World

/-- The origins: what the next fetch of a URL returns. -/
abbrev UrlFetcher := List Text → Text → Except FetchError FetchedContent

/-- `fetcher.fetch`. -/
def fetch (fetcher : UrlFetcher) (url : Text) : FetchM FetchedContent := fun w =>
  let w' := { w with fetched := w.fetched ++ [url] }
  match fetcher w.fetched url with
  | .ok content => .ok content w'
  | .error e => .error e w'

/-- A request to the asset store: a response of another status raises. -/
def request {α : Type} (message : String) (m : AppM α) : FetchM α := fun w =>
  match m w.app with
  | .ok a app => .ok a { w with app }
  | .error e app => .error (.assetStore message e.cls.status) { w with app }

/-- `AssetStoreClient.resolve`: nothing when the response is 404. -/
def clientResolve (space aliasName : Text) : FetchM (Option Asset) := fun w =>
  match resolve "fetcher".toList space aliasName w.app with
  | .ok a app => .ok (some a) { w with app }
  | .error e app =>
    if e.cls.status = 404 then .ok none { w with app }
    else .error (.assetStore "resolve failed" e.cls.status) { w with app }

/-- The arguments of `ensure_url`. -/
structure EnsureRequest where
  url : Text
  noCache : Bool := false
  tmpId : Option Text := none
  preferredAliasSuffix : Option Text := none
  capabilityTtlSeconds : Int := 3600

structure EnsureUrlResult where
  assetId : Text
  qualifiedAlias : Text
  cacheHit : Bool
  bucket : Text
  partitionId : Text
  deriving DecidableEq

/-- `_tmp_alias_tail`. -/
def tmpAliasTail (env : Env) (normalized : NormalizedUrl)
    (preferredAliasSuffix : Option Text) : Text :=
  match preferredAliasSuffix with
  | none | some [] => "fetched/".toList ++ (env.sha256Hex (utf8 normalized.canonical)).take 32
  | some suffix => stripSlash suffix

/-- Where `ensure_url` looks for a URL: the bucket, the partition and the alias. -/
structure Target where
  bucket : Text
  partitionId : Text
  relativeAlias : Text

def Target.qualified (t : Target) : Text := t.bucket ++ '/' :: t.relativeAlias

/-- The target of a normalized URL. -/
def targetOf (env : Env) (rules : List CacheRule) (req : EnsureRequest)
    (normalized : NormalizedUrl) :
    Except FetchError Target := do
  match evaluate rules normalized with
  | some m =>
    let primary ← someOr m.aliases.head? .indexError
    return { bucket := "cache".toList, partitionId := m.mirrorId
             relativeAlias := m.mirrorId ++ '/' :: primary }
  | none =>
    raiseIf (req.tmpId.getD [] = [])
      (.invalidRequest "URL is not cacheable by any rule; provide tmp_id to stage it in tmp")
    let partitionId := stripSlash (req.tmpId.getD [])
    return { bucket := "tmp".toList, partitionId
             relativeAlias :=
               partitionId ++ '/' :: tmpAliasTail env normalized req.preferredAliasSuffix }

/-- The ids that the asset store generates in a request. -/
structure FreshIds where
  capability : Text
  asset : Text

/-- `ensure_url`. -/
def ensureUrl (lib : Urllib) (env : Env) (cfg : ApiConfig) (rules : List CacheRule)
    (fetcher : UrlFetcher) (ids : FreshIds) (req : EnsureRequest) : FetchM EnsureUrlResult := do
  let normalized ← attempt (normalizeUrl lib req.url)
  let target ← attempt (targetOf env rules req normalized)
  let result (assetId : Text) (cacheHit : Bool) : EnsureUrlResult :=
    { assetId, qualifiedAlias := target.qualified, cacheHit, bucket := target.bucket
      partitionId := target.partitionId }
  let existing ← clientResolve target.bucket target.relativeAlias
  match existing with
  | some asset =>
    if req.noCache = false then return result asset.assetId true
    else
      let content ← fetch fetcher normalized.canonical
      attempt (raiseIf (some (computeChecksum env content.data) ≠ asset.checksum)
        FetchError.contentMismatch)
      return result asset.assetId false
  | none =>
    let content ← fetch fetcher normalized.canonical
    let capabilityId ← request "capability mint failed" (mintCapability cfg env ids.capability
      "fetcher".toList .write (target.bucket ++ '/' :: target.partitionId) req.capabilityTtlSeconds
      false)
    let asset ← request "object write failed" (putObject cfg env ids.asset capabilityId
      target.qualified content.data (if content.mime = [] then none else some content.mime))
    return result asset.assetId false

end AssetStore
