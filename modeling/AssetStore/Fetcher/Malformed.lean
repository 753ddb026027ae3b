import AssetStore.Fetcher.Pilot

/-! What `normalize_url` raises. Its own checks raise `InvalidUrl`, which `ensure_url` turns into
`InvalidRequestError` with the same text; so both are `invalidRequest` here. The library raises
`ValueError` besides, when it splits a URL and when it reads the port, and nothing turns that into
one. -/

namespace AssetStore

open Lib

/-- The URL without the characters that `urlsplit` drops. -/
def tidyUrl (raw : Text) : Text := (raw.dropWhile fun c => c.toNat ≤ 32).filter fun c => !isBreak c

/-- The scheme of a URL. -/
def schemeOf (raw : Text) : Text := (splitScheme (tidyUrl raw)).1

/-- The network location of a URL. -/
def netlocOf (raw : Text) : Text := (splitNetloc (splitScheme (tidyUrl raw)).2).1

/-- A port that can be read: none, or ASCII digits for a number up to 65535. -/
def ReadablePort (text : Text) : Prop :=
  text = [] ∨ text.all Char.isDigit = true ∧ text.length ≤ 4300 ∧ Nat.ofDigitChars 10 text 0 ≤ 65535

/-- The network location passes the library's checks, and where a web URL names a host, its port can
be read. -/
structure ReadableNetloc (checks : NetlocChecks) (lower : Text → Text) (raw : Text) : Prop where
  accepted : acceptsNetloc checks (netlocOf raw) = true
  port : lower (schemeOf raw) ∈ ["http".toList, "https".toList] →
    (hostname lower (netlocOf raw)).getD [] ≠ [] → ReadablePort (hostinfo (netlocOf raw)).2

/-- Whatever is wrong with the URL is the client's error: `normalize_url` returns or raises
`InvalidUrl`, and a URL that it does not return makes `ensure_url` raise `InvalidRequestError`
before it asks for anything. -/
structure ClientError (lib : Urllib) (raw : Text) : Prop where
  normalized : (∃ n, normalizeUrl lib raw = .ok n) ∨
    ∃ message, normalizeUrl lib raw = .error (.invalidRequest message)
  refused : (∀ n, normalizeUrl lib raw ≠ .ok n) →
    ∃ message, ∀ env evaluate fetch req, req.url = raw →
    ensureUrlCalls lib env evaluate fetch req = Prog.raise (.fetch (.invalidRequest message))
  unchanged : (∀ n, normalizeUrl lib raw ≠ .ok n) →
    ∃ message, ∀ env cfg rules fetcher ids req w, req.url = raw →
    ensureUrl lib env cfg rules fetcher ids req w = .error (.invalidRequest message) w

section

variable {checks : NetlocChecks} {lower : Text → Text} {raw netloc : Text} {e : FetchError}
  {lib : Urllib}

theorem port_eq_error :
    port netloc = .error e ↔ ¬ReadablePort (hostinfo netloc).2 ∧ e = .valueError := by
  unfold port ReadablePort
  simp only
  split
  · rename_i hnil
    simp [hnil]
  · rename_i hne
    split
    · rename_i hreads
      simp [hreads]
    · rename_i hfails
      simp only [hne, hfails, Except.error.injEq, or_self, not_false_eq_true, true_and]
      exact eq_comm

theorem urlsplit_eq_ok {parts : SplitResult} (h : (urllib checks lower).urlsplit raw = .ok parts) :
    acceptsNetloc checks (netlocOf raw) = true ∧ parts.scheme = schemeOf raw ∧
      parts.hostname = hostname lower (netlocOf raw) ∧ parts.port = port (netlocOf raw) := by
  simp only [urllib, urlsplit, except_bind_eq_ok, raiseIf_eq_ok, except_pure_eq_ok,
    Bool.not_eq_false] at h
  obtain ⟨_, ⟨_, haccepts, rfl⟩, rfl⟩ := h
  exact ⟨haccepts, rfl, rfl, rfl⟩

theorem urlsplit_eq_error : (urllib checks lower).urlsplit raw = .error e ↔
    acceptsNetloc checks (netlocOf raw) = false ∧ e = .valueError := by
  simp only [urllib, urlsplit, except_bind_eq_error, raiseIf_eq_error, except_pure_ne_error,
    and_false, exists_false, or_false]
  exact and_congr_right fun _ => eq_comm

theorem urlsplit_returns (h : acceptsNetloc checks (netlocOf raw) = true) :
    ∃ parts, (urllib checks lower).urlsplit raw = .ok parts := by
  cases hsplit : (urllib checks lower).urlsplit raw with
  | ok parts => exact ⟨parts, rfl⟩
  | error e =>
    rw [(urlsplit_eq_error.mp hsplit).1] at h
    cases h

/-- An error of `normalize_url` is `InvalidUrl`, or `ValueError` of the library. -/
theorem normalizeUrl_eq_error (h : normalizeUrl (urllib checks lower) raw = .error e) :
    (∃ message, e = .invalidRequest message) ∨
      e = .valueError ∧ ¬ReadableNetloc checks lower (stripSpace raw) := by
  unfold normalizeUrl at h
  rcases except_bind_eq_error.mp h with h | ⟨_, -, h⟩
  · exact .inl ⟨_, (raiseIf_eq_error.mp h).2.symm⟩
  rcases except_bind_eq_error.mp h with h | ⟨parts, hparts, h⟩
  · obtain ⟨hrefused, rfl⟩ := urlsplit_eq_error.mp h
    exact .inr ⟨rfl, fun hreads => by simp [hreads.accepted] at hrefused⟩
  obtain ⟨-, hscheme, hhost, hport⟩ := urlsplit_eq_ok hparts
  rcases except_bind_eq_error.mp h with h | ⟨_, hweb, h⟩
  · exact .inl ⟨_, (raiseIf_eq_error.mp h).2.symm⟩
  rcases except_bind_eq_error.mp h with h | ⟨_, hnamed, h⟩
  · exact .inl ⟨_, (raiseIf_eq_error.mp h).2.symm⟩
  rcases except_bind_eq_error.mp h with h | ⟨port, -, h⟩
  · rw [hport] at h
    obtain ⟨hunreadable, rfl⟩ := port_eq_error.mp h
    rw [raiseIf_eq_ok, not_not, hscheme] at hweb
    rw [raiseIf_eq_ok, hhost] at hnamed
    exact .inr ⟨rfl, fun hreads => hunreadable (hreads.port hweb hnamed)⟩
  · cases h

theorem readableNetloc_nil : ReadableNetloc checks lower [] :=
  ⟨rfl, fun _ hnamed => absurd rfl hnamed⟩

/-- An unreadable network location makes `normalize_url` raise the library's error. -/
theorem normalizeUrl_unreadable (h : ¬ReadableNetloc checks lower (stripSpace raw)) :
    normalizeUrl (urllib checks lower) raw = .error .valueError := by
  have hne : stripSpace raw ≠ [] := fun hnil => h (hnil ▸ readableNetloc_nil)
  rw [normalizeUrl, except_bind_eq_error]
  refine .inr ⟨(), raiseIf_eq_ok.mpr hne, except_bind_eq_error.mpr ?_⟩
  cases haccepts : acceptsNetloc checks (netlocOf (stripSpace raw)) with
  | false => exact .inl (urlsplit_eq_error.mpr ⟨haccepts, rfl⟩)
  | true =>
    -- the splitting passes, so it is the port of a named web host that cannot be read
    obtain ⟨parts, hparts⟩ := urlsplit_returns haccepts
    obtain ⟨-, hscheme, hhost, hport⟩ := urlsplit_eq_ok hparts
    obtain ⟨hweb, hnamed, hunreadable⟩ : lower parts.scheme ∈ ["http".toList, "https".toList] ∧
        parts.hostname.getD [] ≠ [] ∧ ¬ReadablePort (hostinfo (netlocOf (stripSpace raw))).2 := by
      by_contra hno
      refine h ⟨haccepts, fun hweb hnamed => ?_⟩
      by_contra hunreadable
      exact hno ⟨hscheme ▸ hweb, hhost ▸ hnamed, hunreadable⟩
    refine .inr ⟨parts, hparts, except_bind_eq_error.mpr
      (.inr ⟨(), raiseIf_eq_ok.mpr (not_not.mpr hweb), ?_⟩)⟩
    refine except_bind_eq_error.mpr (.inr
      ⟨(), raiseIf_eq_ok.mpr hnamed, except_bind_eq_error.mpr (.inl ?_)⟩)
    rw [hport]
    exact port_eq_error.mpr ⟨hunreadable, rfl⟩

/-- A URL that `normalize_url` refuses makes `ensure_url` raise before its first request. -/
theorem ensureUrlCalls_refused {env : Env}
    {evaluate : NormalizedUrl → Except PilotError (Option RuleMatch)}
    {fetch : Text → PilotProg FetchedContent} {req : EnsureRequest}
    (h : normalizeUrl lib req.url = .error e) :
    ensureUrlCalls lib env evaluate fetch req = Prog.raise (.fetch e) := by
  rw [ensureUrlCalls, h]
  rfl

theorem ensureUrl_refused {env : Env} {cfg : ApiConfig} {rules : List CacheRule}
    {fetcher : UrlFetcher} {ids : FreshIds}
    {req : EnsureRequest} {w : World} (h : normalizeUrl lib req.url = .error e) :
    ensureUrl lib env cfg rules fetcher ids req w = .error e w := by
  rw [ensureUrl]
  exact bind_of_error (attempt_eq_error.mpr ⟨h, rfl⟩)

end

/-- What is wrong with a URL is the client's error exactly when its network location can be read. -/
theorem client_error_iff (checks : NetlocChecks) (lower : Text → Text) (raw : Text) :
    ClientError (urllib checks lower) raw ↔ ReadableNetloc checks lower (stripSpace raw) := by
  constructor
  · intro h
    by_contra hunreadable
    have hraises := normalizeUrl_unreadable hunreadable
    rcases h.normalized with ⟨n, hn⟩ | ⟨message, hmessage⟩
    · rw [hraises] at hn
      cases hn
    · rw [hraises] at hmessage
      cases hmessage
  · intro hreads
    have hkind : ∀ e, normalizeUrl (urllib checks lower) raw = .error e →
        ∃ message, e = .invalidRequest message := by
      intro e he
      rcases normalizeUrl_eq_error he with hinvalid | ⟨-, hunreadable⟩
      · exact hinvalid
      · exact absurd hreads hunreadable
    cases hresult : normalizeUrl (urllib checks lower) raw with
    | ok n =>
      exact ⟨.inl ⟨n, hresult⟩, fun hno => absurd hresult (hno n),
        fun hno => absurd hresult (hno n)⟩
    | error e =>
      obtain ⟨message, rfl⟩ := hkind e hresult
      refine ⟨.inr ⟨message, hresult⟩, fun _ => ⟨message, fun env evaluate fetch req hreq => ?_⟩,
        fun _ => ⟨message, fun env cfg rules fetcher ids req w hreq => ?_⟩⟩
      · exact ensureUrlCalls_refused (by rw [hreq, hresult])
      · exact ensureUrl_refused (by rw [hreq, hresult])

/-- An open bracket and a port that is no number come through as `ValueError`. -/
theorem value_error_escapes : normalizeUrl webUrllib "http://[".toList = .error .valueError ∧
    normalizeUrl webUrllib "http://h:x/".toList = .error .valueError := by
  decide +kernel

end AssetStore
