import AssetStore.Fetcher
import AssetStore.Lib.Triples

/-! The outbound side of the fetcher: the redirect loop, the address checks and the connections. The
network, the client library and the caller's policy answer by what has happened so far, which a log
records; the log also marks where an iteration of the redirect loop and where a connection attempt
begins. -/

namespace AssetStore

open Lib

/-! ### Addresses -/

/-- What `ipaddress.ip_address` returns. -/
inductive IpAddress
  | v4 (bits : BitVec 32)
  | v6 (bits : BitVec 128) (scopeId : Option Text)
  deriving DecidableEq

structure Ipv6Network where
  address : BitVec 128
  prefixLength : Nat

/-- `ip in network`. -/
def Ipv6Network.contains (network : Ipv6Network) (bits : BitVec 128) : Bool :=
  bits &&& (BitVec.allOnes 128 <<< (128 - network.prefixLength)) == network.address

/-- `_TRANSITION_NETWORKS`. -/
def transitionNetworks : List Ipv6Network :=
  [⟨0x0064ff9b000000000000000000000000, 96⟩, ⟨0x0064ff9b000100000000000000000000, 48⟩,
   ⟨0x20020000000000000000000000000000, 16⟩, ⟨0x20010000000000000000000000000000, 32⟩]

/-- `ip.ipv4_mapped`. -/
def ipv4Mapped (bits : BitVec 128) : Option (BitVec 32) :=
  if bits >>> 32 = 0xFFFF then some (bits.setWidth 32) else none

/-- The `ipaddress` module, as far as it is read. -/
structure Ipaddress where
  ipAddress : Text → Option IpAddress
  str : IpAddress → Text
  isGlobal : IpAddress → Bool
  isMulticast : IpAddress → Bool

/-- The first check of `blocked_ip`. -/
def nonPublic (lib : Ipaddress) (ip : IpAddress) : Bool := !lib.isGlobal ip || lib.isMulticast ip

/-- `blocked_ip`. -/
def blockedIp (lib : Ipaddress) : IpAddress → Bool
  | .v4 bits => nonPublic lib (.v4 bits)
  | .v6 bits scopeId =>
    if nonPublic lib (.v6 bits scopeId) then true
    else
      match ipv4Mapped bits with
      | some mapped => nonPublic lib (.v4 mapped)
      | none => transitionNetworks.any fun network => network.contains bits

inductive AddressFamily
  | inet
  | inet6
  | other
  deriving DecidableEq

/-- An entry of what `getaddrinfo` returns. -/
structure AddrInfo where
  family : AddressFamily
  address : Text
  deriving DecidableEq

/-! ### The network -/

/-- What can be raised on the way. -/
inductive NetFailure
  | upstream (message : String)
  | upstreamTimeout (message : String)
  | os
  | connectError
  | connectTimeout
  | timeout
  | transport
  | assertion
  | other
  deriving DecidableEq

/-- What happens in a fetch. -/
inductive NetEvent
  | hop
  | validated (url : Text)
  | checked (url : Text)
  | request (url : Text)
  | connecting (host : Text) (port : Nat)
  | answers (host : Text) (port : Nat) (infos : List AddrInfo)
  | clock (now : Rat)
  | dial (address : Text) (port : Nat)
  | left
  deriving DecidableEq

structure ResponseHead where
  isRedirect : Bool
  statusCode : Int
  location : Option Text := none
  contentType : Option Text := none

/-- How the client library reads a body. It dials through the backend whenever it likes. -/
inductive Body
  | finished
  | chunk (bytes : List UInt8) (rest : Body)
  | connect (host : Text) (port : Nat) (timeout : Option Rat) (next : Except NetFailure Unit → Body)
  | raised (e : NetFailure)

/-- How the client library makes a request. -/
inductive Exchange
  | response (head : ResponseHead) (body : Body)
  | connect (host : Text) (port : Nat) (timeout : Option Rat)
      (next : Except NetFailure Unit → Exchange)
  | raised (e : NetFailure)

/-- Everything that a fetch calls and does not control, as a function of what has happened. -/
structure Internet where
  lib : Ipaddress
  urlsplit : Text → Except NetFailure (Text × Option Text)
  lower : Text → Text
  urljoin : Text → Text → Except NetFailure Text
  validate : List NetEvent → Text → Except NetFailure Unit
  getaddrinfo : List NetEvent → Text → Nat → Except NetFailure (List AddrInfo)
  monotonic : List NetEvent → Rat
  dial : List NetEvent → Text → Nat → Option Rat → Except NetFailure Unit
  stream : List NetEvent → Text → Exchange

abbrev NetM := EStateM NetFailure (List NetEvent)

/-- `monotonic()`. -/
def monotonic (net : Internet) : NetM Rat := do
  let now := net.monotonic (← get)
  emit (.clock now)
  return now

/-! ### `transport.py` -/

/-- The loop of `resolve_allowed` over the answer set. -/
def allowedAddresses (lib : Ipaddress) (allowPrivateHosts : Bool) :
    List AddrInfo → List Text → Except NetFailure (List Text)
  | [], addresses => pure addresses
  | info :: infos, addresses => do
    raiseIf (info.family = .other) (.upstream "unsupported origin address family")
    let ip ← someOr (lib.ipAddress info.address) (.upstream "invalid origin address")
    raiseIf (allowPrivateHosts = false ∧ ('%' ∈ info.address ∨ blockedIp lib ip = true))
      (.upstream "origin resolves to a blocked address")
    allowedAddresses lib allowPrivateHosts infos
      (if lib.str ip ∈ addresses then addresses else addresses ++ [lib.str ip])

/-- `resolve_allowed`. -/
def resolveAllowed (net : Internet) (allowPrivateHosts : Bool) (host : Text) (port : Nat) :
    NetM (List Text) := do
  match net.getaddrinfo (← get) host port with
  | .error .os => attempt (.error (.upstream "cannot resolve origin host"))
  | .error e => attempt (.error e)
  | .ok infos => do
    emit (.answers host port infos)
    let addresses ← attempt (allowedAddresses net.lib allowPrivateHosts infos [])
    attempt (raiseIf (addresses = []) (.upstream "origin has no usable addresses"))
    return addresses

/-- What is left of the deadline of a connection. -/
def remainingTime (net : Internet) (started : Rat) : Option Rat → NetM (Option Rat)
  | none => pure none
  | some timeout => do
    let now ← monotonic net
    let remaining := timeout - (now - started)
    attempt (raiseIf (remaining ≤ 0) .connectTimeout)
    return some remaining

/-- The loop of `connect_tcp` over the addresses. -/
def dialAddresses (net : Internet) (port : Nat) (timeout : Option Rat) (started : Rat) :
    List Text → Option NetFailure → NetM Unit
  | [], lastError => attempt (.error (lastError.getD .assertion))
  | address :: addresses, _ => do
    let remaining ← remainingTime net started timeout
    emit (.dial address port)
    match net.dial (← get) address port remaining with
    | .ok () => pure ()
    | .error e =>
      if e = .connectError ∨ e = .connectTimeout then
        dialAddresses net port timeout started addresses (some e)
      else attempt (.error e)

/-- `ValidatedNetworkBackend.connect_tcp`. -/
def connectTcp (net : Internet) (allowPrivateHosts : Bool) (host : Text) (port : Nat)
    (timeout : Option Rat) : NetM Unit := do
  emit (.connecting host port)
  lastly (do
    let started ← monotonic net
    let addresses ← resolveAllowed net allowPrivateHosts host port
    dialAddresses net port timeout started addresses none) (· ++ [.left])

/-! ### `fetcher.py` -/

structure HttpFetcher where
  maxBytes : Int
  maxRedirects : Int
  allowPrivateHosts : Bool

/-- `_validate`. -/
def HttpFetcher.validate (self : HttpFetcher) (net : Internet) (url : Text) : NetM Unit := do
  let (scheme, hostname) ← attempt (net.urlsplit url)
  attempt (raiseIf (net.lower scheme ∉ ["http".toList, "https".toList])
    (.upstream "scheme %r is not allowed (http/https only)"))
  attempt (raiseIf (hostname.getD [] = []) (.upstream "URL %r has no host"))
  let _ ← resolveAllowed net self.allowPrivateHosts (hostname.getD []) 443

/-- The client library up to the head of the response. -/
def HttpFetcher.exchange (self : HttpFetcher) (net : Internet) :
    Exchange → NetM (ResponseHead × Body)
  | .response head body => pure (head, body)
  | .connect host port timeout next => do
    let stream ← outcome (connectTcp net self.allowPrivateHosts host port timeout)
    self.exchange net (next stream)
  | .raised e => attempt (.error e)

/-- `_read_capped`. -/
def HttpFetcher.readCapped (self : HttpFetcher) (net : Internet) :
    Body → List (List UInt8) → Int → NetM (List UInt8)
  | .finished, chunks, _ => pure chunks.flatten
  | .chunk bytes rest, chunks, total => do
    let total := total + bytes.length
    attempt (raiseIf (self.maxBytes < total) (.upstream "origin body exceeds max_bytes (%r)"))
    self.readCapped net rest (chunks ++ [bytes]) total
  | .connect host port timeout next, chunks, total => do
    let stream ← outcome (connectTcp net self.allowPrivateHosts host port timeout)
    self.readCapped net (next stream) chunks total
  | .raised e, _, _ => attempt (.error e)

/-- The `except` clauses of the redirect loop. -/
def translate : NetFailure → NetFailure
  | .connectTimeout | .timeout => .upstreamTimeout "timeout fetching %r: %s"
  | .connectError | .transport => .upstream "error fetching %r: %s"
  | e => e

/-- The media type of a response, without parameters. -/
def mimeOf (head : ResponseHead) : Text :=
  let mime :=
    stripSpace ((head.contentType.getD "application/octet-stream".toList).takeWhile (· != ';'))
  if mime = [] then "application/octet-stream".toList else mime

/-- One request of the redirect loop: the next URL, or the content. -/
def HttpFetcher.requestOnce (self : HttpFetcher) (net : Internet) (current : Text) :
    NetM (Text ⊕ FetchedContent) := do
  emit (.request current)
  let (head, body) ← self.exchange net (net.stream (← get) current)
  if head.isRedirect then do
    attempt (raiseIf (head.location.getD [] = []) (.upstream "redirect from %r without a Location"))
    let target ← attempt (net.urljoin current (head.location.getD []))
    return .inl target
  else do
    attempt (raiseIf (400 ≤ head.statusCode) (.upstream "origin returned HTTP %s for %r"))
    let data ← self.readCapped net body [] 0
    return .inr { data, mime := mimeOf head }

/-- The redirect loop of `fetch_with_policy`, with the iterations that are left. -/
def HttpFetcher.fetchHops (self : HttpFetcher) (net : Internet) : Nat → Text → NetM FetchedContent
  | 0, _ => attempt (.error (.upstream "too many redirects (>%s) fetching %r"))
  | n + 1, current => do
    emit .hop
    attempt (net.validate (← get) current)
    emit (.validated current)
    self.validate net current
    emit (.checked current)
    match ← translated translate (self.requestOnce net current) with
    | .inl target => self.fetchHops net n target
    | .inr content => return content

/-- `fetch_with_policy`. -/
def HttpFetcher.fetchWithPolicy (self : HttpFetcher) (net : Internet) (url : Text) :
    NetM FetchedContent :=
  self.fetchHops net (self.maxRedirects + 1).toNat url

end AssetStore
