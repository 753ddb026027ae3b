import AssetStore.Fetcher

/-! `urllib.parse`: splitting a URL and decoding percent escapes. What the library asks of a network
location beyond its delimiters (address literals in brackets, compatibility characters) stays a
parameter. -/

namespace AssetStore

open Lib

/-! ### `unquote` -/

/-- The value of a hexadecimal digit, of either case. -/
def hexValue (c : Char) : Option Nat :=
  if '0' ≤ c ∧ c ≤ '9' then some (c.toNat - 48)
  else if 'A' ≤ c ∧ c ≤ 'F' then some (c.toNat - 55)
  else if 'a' ≤ c ∧ c ≤ 'f' then some (c.toNat - 87)
  else none

/-- The byte that two hexadecimal digits spell. -/
def hexByte (hi lo : Char) : Option UInt8 := do
  return UInt8.ofNat (16 * (← hexValue hi) + (← hexValue lo))

/-- The byte that the first two characters spell, if they are hexadecimal digits. -/
def leadingByte : Text → Option UInt8
  | hi :: lo :: _ => hexByte hi lo
  | _ => none

/-- `re.findall(r"%[0-9A-Fa-f]{2}", s)`, as the bytes that the escapes spell. -/
def escapedBytes : Text → List UInt8
  | [] => []
  | c :: rest => (if c = '%' then (leadingByte rest).toList else []) ++ escapedBytes rest

/-- `unquote_to_bytes` of ASCII text. -/
def unquoteToBytes : Text → List UInt8
  | '%' :: hi :: lo :: rest =>
    match hexByte hi lo with
    | some b => b :: unquoteToBytes rest
    | none => 0x25 :: unquoteToBytes (hi :: lo :: rest)
  | c :: rest => UInt8.ofNat c.toNat :: unquoteToBytes rest
  | [] => []

def replacement : Char := Char.ofNat 0xFFFD

/-- Whether a byte continues a sequence. -/
def continues (b : UInt8) : Bool := 0x80 ≤ b && b ≤ 0xBF

/-- The second bytes that may follow a first byte of three or four. -/
def followed (first second : UInt8) : Bool :=
  if first = 0xE0 then 0xA0 ≤ second && second ≤ 0xBF
  else if first = 0xED then 0x80 ≤ second && second ≤ 0x9F
  else if first = 0xF0 then 0x90 ≤ second && second ≤ 0xBF
  else if first = 0xF4 then 0x80 ≤ second && second ≤ 0x8F
  else continues second

/-- The low six bits of a continuation byte. -/
def low (b : UInt8) : Nat := b.toNat % 64

/-- `bytes.decode("utf-8", "replace")`: each longest start of a sequence that breaks off is
replaced. -/
def decodeUtf8 : List UInt8 → Text
  | [] => []
  | b0 :: rest =>
    if b0 < 0x80 then Char.ofNat b0.toNat :: decodeUtf8 rest
    else if 0xC2 ≤ b0 && b0 ≤ 0xDF then
      match rest with
      | b1 :: rest =>
        if continues b1 then Char.ofNat (b0.toNat % 32 * 64 + low b1) :: decodeUtf8 rest
        else replacement :: decodeUtf8 (b1 :: rest)
      | [] => [replacement]
    else if 0xE0 ≤ b0 && b0 ≤ 0xEF then
      match rest with
      | b1 :: rest =>
        if followed b0 b1 then
          match rest with
          | b2 :: rest =>
            if continues b2 then
              Char.ofNat (b0.toNat % 16 * 4096 + low b1 * 64 + low b2) :: decodeUtf8 rest
            else replacement :: decodeUtf8 (b2 :: rest)
          | [] => [replacement]
        else replacement :: decodeUtf8 (b1 :: rest)
      | [] => [replacement]
    else if 0xF0 ≤ b0 && b0 ≤ 0xF4 then
      match rest with
      | b1 :: rest =>
        if followed b0 b1 then
          match rest with
          | b2 :: rest =>
            if continues b2 then
              match rest with
              | b3 :: rest =>
                if continues b3 then
                  Char.ofNat (b0.toNat % 8 * 262144 + low b1 * 4096 + low b2 * 64 + low b3) ::
                    decodeUtf8 rest
                else replacement :: decodeUtf8 (b3 :: rest)
              | [] => [replacement]
            else replacement :: decodeUtf8 (b2 :: rest)
          | [] => [replacement]
        else replacement :: decodeUtf8 (b1 :: rest)
      | [] => [replacement]
    else replacement :: decodeUtf8 rest

/-- The text, with the ASCII run that was read last in front of it. -/
def unquoteFrom (run : Text) : Text → Text
  | [] => decodeUtf8 (unquoteToBytes run)
  | c :: rest =>
    if c.toNat < 128 then unquoteFrom (run ++ [c]) rest
    else decodeUtf8 (unquoteToBytes run) ++ c :: unquoteFrom [] rest

/-- `unquote`: decodes each run of ASCII characters. -/
def unquote (s : Text) : Text := if '%' ∈ s then unquoteFrom [] s else s

/-! ### `urlsplit` -/

/-- What `urlsplit` asks of a network location: the address literal in brackets, and that no
character beyond ASCII stands for a delimiter. -/
structure NetlocChecks where
  bracketed : Text → Bool
  compatible : Text → Bool

def uncheckedNetloc : NetlocChecks := { bracketed := fun _ => false, compatible := fun _ => true }

/-- What a URL is split into. The fragment is dropped. -/
structure SplitUrl where
  scheme : Text
  netloc : Text
  path : Text
  query : Text
  deriving DecidableEq

/-- What follows the first `c`. -/
def after (c : Char) (s : Text) : Text := (s.dropWhile (· != c)).drop 1

/-- The scheme, lowered, and the rest of the URL. -/
def splitScheme (url : Text) : Text × Text :=
  let scheme := url.takeWhile (· != ':')
  let isSchemeChar (c : Char) : Bool := c.isAlphanum || c == '+' || c == '-' || c == '.'
  if ':' ∈ url ∧ (scheme.headD '0').isAlpha = true ∧ scheme.all isSchemeChar = true then
    (scheme.map Char.toLower, after ':' url)
  else ([], url)

/-- The delimiters behind a network location. -/
def endsNetloc (c : Char) : Bool := "/?#".toList.contains c

/-- Tabs and line breaks, which `urlsplit` drops. -/
def isBreak (c : Char) : Bool := "\t\r\n".toList.contains c

/-- The network location behind two slashes, and the rest of the URL. -/
def splitNetloc (url : Text) : Text × Text :=
  match url with
  | '/' :: '/' :: rest =>
    (rest.takeWhile fun c => !endsNetloc c, rest.dropWhile fun c => !endsNetloc c)
  | url => ([], url)

/-- The checks of a network location. -/
def acceptsNetloc (checks : NetlocChecks) (netloc : Text) : Bool :=
  ('[' ∈ netloc) == (']' ∈ netloc) && ('[' ∉ netloc || checks.bracketed netloc) &&
    (netloc.all (fun c => c.toNat < 128) || checks.compatible netloc)

/-- `urlsplit`. Control characters and blanks in front of the URL are dropped, and line breaks and
tabs all over it. -/
def urlsplit (checks : NetlocChecks) (raw : Text) : Except FetchError SplitUrl := do
  let url := (raw.dropWhile fun c => c.toNat ≤ 32).filter fun c => !isBreak c
  let (scheme, url) := splitScheme url
  let (netloc, url) := splitNetloc url
  raiseIf (acceptsNetloc checks netloc = false) .valueError
  let url := url.takeWhile (· != '#')
  return { scheme, netloc, path := url.takeWhile (· != '?'), query := after '?' url }

/-- `_hostinfo`: the host and the text of the port. -/
def hostinfo (netloc : Text) : Text × Text :=
  let info := netloc.rtakeWhile (· != '@')
  if '[' ∈ info then
    let inside := after '[' info
    (inside.takeWhile (· != ']'), after ':' (after ']' inside))
  else (info.takeWhile (· != ':'), after ':' info)

/-- `hostname`: the host with all before its zone lowered. -/
def hostname (lower : Text → Text) (netloc : Text) : Option Text :=
  let host := (hostinfo netloc).1
  if host = [] then none
  else some (lower (host.takeWhile (· != '%')) ++ host.dropWhile (· != '%'))

/-- `port`. -/
def port (netloc : Text) : Except FetchError (Option Nat) :=
  let text := (hostinfo netloc).2
  if text = [] then .ok none
  else if text.all Char.isDigit = true ∧ text.length ≤ 4300 ∧
    Nat.ofDigitChars 10 text 0 ≤ 65535 then
    .ok (some (Nat.ofDigitChars 10 text 0))
  else .error .valueError

/-! ### Splitting a URL that was put together -/

section Rebuilt

variable {checks : NetlocChecks} {scheme authority rest tail : Text} {c : Char}

theorem ne_of_mem_of_not_mem {d : Char} (hd : d ∈ scheme) (h : c ∉ scheme) : (d != c) = true := by
  have hne : d ≠ c := fun heq => h (heq ▸ hd)
  simpa using hne

theorem takeWhile_ne (h : c ∉ scheme) : (scheme ++ c :: tail).takeWhile (· != c) = scheme := by
  rw [List.takeWhile_append_of_pos fun d hd => ne_of_mem_of_not_mem hd h]
  simp

theorem after_append (h : c ∉ scheme) : after c (scheme ++ c :: tail) = tail := by
  rw [after, List.dropWhile_append_of_pos fun d hd => ne_of_mem_of_not_mem hd h]
  simp

theorem after_of_not_mem (h : c ∉ tail) : after c tail = [] := by
  rw [after, List.dropWhile_eq_nil_iff.mpr fun d hd => ne_of_mem_of_not_mem hd h]
  rfl

theorem splitScheme_web (hscheme : scheme ∈ ["http".toList, "https".toList]) :
    splitScheme (scheme ++ ':' :: tail) = (scheme, tail) := by
  have hall : ∀ s ∈ ["http".toList, "https".toList], ':' ∉ s ∧ (s.headD '0').isAlpha = true ∧
      (s.all fun c => c.isAlphanum || c == '+' || c == '-' || c == '.') = true ∧
      s.map Char.toLower = s := by decide
  obtain ⟨hcolon, halpha, hchars, hlower⟩ := hall scheme hscheme
  rw [splitScheme]
  simp only [takeWhile_ne hcolon, after_append hcolon, hlower]
  rw [if_pos ⟨by simp, halpha, hchars⟩]

theorem splitNetloc_authority (hauthority : ∀ c ∈ authority, endsNetloc c = false)
    (hrest : ∀ c ∈ rest.head?, endsNetloc c = true) :
    splitNetloc ('/' :: '/' :: (authority ++ rest)) = (authority, rest) := by
  have hpos : ∀ c ∈ authority, (!endsNetloc c) = true := fun c hc => by simp [hauthority c hc]
  rw [splitNetloc, List.takeWhile_append_of_pos hpos, List.dropWhile_append_of_pos hpos]
  cases rest with
  | nil => simp
  | cons c rest => simp [hrest c rfl]

theorem not_break_of_ends (h : endsNetloc c = true) : isBreak c = false := by
  have hall : ∀ c ∈ "/?#".toList, isBreak c = false := by decide
  exact hall c (by simpa [endsNetloc] using h)

/-- Splitting a web URL with some authority. -/
theorem urlsplit_authority (hscheme : scheme ∈ ["http".toList, "https".toList])
    (hauthority : ∀ c ∈ authority, endsNetloc c = false ∧ isBreak c = false)
    (hrest : ∀ c ∈ rest.head?, endsNetloc c = true) :
    urlsplit checks (scheme ++ ':' :: '/' :: '/' :: (authority ++ rest)) = (do
      raiseIf (acceptsNetloc checks authority = false) FetchError.valueError
      let url := (rest.filter fun c => !isBreak c).takeWhile (· != '#')
      return { scheme, netloc := authority, path := url.takeWhile (· != '?'),
               query := after '?' url }) := by
  have hlead :
      (scheme ++ ':' :: '/' :: '/' :: (authority ++ rest)).dropWhile (fun c => c.toNat ≤ 32) =
      scheme ++ ':' :: '/' :: '/' :: (authority ++ rest) := by
    have hall : ∀ s ∈ ["http".toList, "https".toList], ∃ t, s = 'h' :: t := by
      intro s hs
      rcases List.mem_pair.mp hs with rfl | rfl
      · exact ⟨_, rfl⟩
      · exact ⟨_, rfl⟩
    obtain ⟨t, rfl⟩ := hall scheme hscheme
    exact List.dropWhile_cons_of_neg (by decide)
  have hfilter : (scheme ++ ':' :: '/' :: '/' :: (authority ++ rest)).filter (fun c => !isBreak c) =
      scheme ++ ':' :: '/' :: '/' :: (authority ++ rest.filter fun c => !isBreak c) := by
    have hall : ∀ s ∈ ["http".toList, "https".toList], s.filter (fun c => !isBreak c) = s := by
      decide
    rw [List.filter_append, hall scheme hscheme, List.filter_cons_of_pos (by decide),
      List.filter_cons_of_pos (by decide), List.filter_cons_of_pos (by decide), List.filter_append,
      List.filter_eq_self.mpr fun c hc => by simp [(hauthority c hc).2]]
  have hrest' : ∀ c ∈ (rest.filter fun c => !isBreak c).head?, endsNetloc c = true := by
    cases rest with
    | nil => simp
    | cons c rest =>
      have hkept : isBreak c = false := not_break_of_ends (hrest c rfl)
      rw [List.filter_cons_of_pos (by simp [hkept])]
      exact hrest
  simp only [urlsplit, hlead, hfilter, splitScheme_web hscheme,
    splitNetloc_authority (fun c hc => (hauthority c hc).1) hrest']

/-- Characters that stand for themselves in a URL and end no part of it. -/
def isPlain (c : Char) : Bool := 33 ≤ c.toNat && c.toNat ≤ 126 && !"%?#".toList.contains c

theorem plain_bounds (h : isPlain c = true) : 33 ≤ c.toNat ∧ c.toNat ≤ 126 := by
  simp only [isPlain, Bool.and_eq_true, decide_eq_true_eq] at h
  exact h.1

theorem plain_ne (h : isPlain c = true) : c ≠ '%' ∧ c ≠ '?' ∧ c ≠ '#' := by
  simp only [isPlain, Bool.and_eq_true] at h
  simpa using h.2

theorem plain_not_break (h : isPlain c = true) : isBreak c = false := by
  have hall : ∀ c ∈ "\t\r\n".toList, c.toNat < 33 := by decide
  by_contra hno
  rw [Bool.not_eq_false, isBreak, List.contains_iff_mem] at hno
  have hlow := hall c hno
  have hbounds := plain_bounds h
  omega

theorem plain_not_space (h : isPlain c = true) : isSpace c = false := by
  obtain ⟨hlo, hhi⟩ := plain_bounds h
  simp only [isSpace, Bool.or_eq_false_iff, Bool.and_eq_false_iff, decide_eq_false_iff_not,
    beq_eq_false_iff_ne]
  omega

/-- A network location that needs no further check. -/
def isPlainHost (c : Char) : Bool := isPlain c && !"/[]".toList.contains c

theorem urlsplit_plain {path : Text} (hscheme : scheme ∈ ["http".toList, "https".toList])
    (hauthority : ∀ c ∈ authority, isPlainHost c = true)
    (hpath : ∀ c ∈ '/' :: path, isPlain c = true) :
    urlsplit checks (scheme ++ ':' :: '/' :: '/' :: (authority ++ '/' :: path)) =
      .ok { scheme, netloc := authority, path := '/' :: path, query := [] } := by
  have hplain : ∀ c ∈ authority, isPlain c = true ∧ c ∉ "/[]".toList := fun c hc => by
    simpa [isPlainHost] using hauthority c hc
  have hends : ∀ c ∈ authority, endsNetloc c = false ∧ isBreak c = false := by
    intro c hc
    obtain ⟨hc, hother⟩ := hplain c hc
    have hne := plain_ne hc
    refine ⟨?_, plain_not_break hc⟩
    rw [← Bool.not_eq_true, endsNetloc, List.contains_iff_mem]
    simp only [List.mem_cons, not_or, show "/?#".toList = ['/', '?', '#'] from rfl,
      show "/[]".toList = ['/', '[', ']'] from rfl] at hother ⊢
    exact ⟨hother.1, hne.2.1, hne.2.2, by simp⟩
  have hno : ∀ d ∈ "[]".toList, d ∉ authority := by
    intro d hd hmem
    have hsub : ∀ d ∈ "[]".toList, d ∈ "/[]".toList := by decide
    exact (hplain d hmem).2 (hsub d hd)
  have haccepts : acceptsNetloc checks authority = true := by
    have hascii : authority.all (fun c => c.toNat < 128) = true := by
      rw [List.all_eq_true]
      intro c hc
      have hbounds := plain_bounds (hplain c hc).1
      exact decide_eq_true (by omega)
    simp [acceptsNetloc, hno '[' (by decide), hno ']' (by decide), hascii]
  have hquery : '?' ∉ '/' :: path := fun hmem => (plain_ne (hpath _ hmem)).2.1 rfl
  have hfragment : '#' ∉ '/' :: path := fun hmem => (plain_ne (hpath _ hmem)).2.2 rfl
  have hkept : ('/' :: path).filter (fun c => !isBreak c) = '/' :: path :=
    List.filter_eq_self.mpr fun c hc => by simp [plain_not_break (hpath c hc)]
  have htake : ∀ d, d ∉ '/' :: path → ('/' :: path).takeWhile (· != d) = '/' :: path := fun d hd =>
    List.takeWhile_eq_self_iff.mpr fun c hc => ne_of_mem_of_not_mem hc hd
  rw [urlsplit_authority hscheme hends (by simp [endsNetloc])]
  simp [haccepts, hkept, htake _ hquery, htake _ hfragment, after_of_not_mem hquery, raiseIf]

end Rebuilt

/-! ### Lengths -/

section Lengths

variable {checks : NetlocChecks} {raw s run : Text} {parts : SplitUrl} {bytes : List UInt8}

theorem length_unquoteToBytes_le : (unquoteToBytes s).length ≤ s.length := by
  fun_induction unquoteToBytes s with
  | case1 hi lo rest b hb ih =>
    simp only [List.length_cons] at ih ⊢
    omega
  | case2 hi lo rest hb ih =>
    simp only [List.length_cons] at ih ⊢
    omega
  | case3 c rest _ ih =>
    simp only [List.length_cons] at ih ⊢
    omega
  | case4 => exact le_rfl

theorem length_decodeUtf8_le : (decodeUtf8 bytes).length ≤ bytes.length := by
  fun_induction decodeUtf8 bytes <;> simp only [List.length_cons, List.length_nil] at * <;> omega

theorem length_unquoteFrom_le : (unquoteFrom run s).length ≤ run.length + s.length := by
  induction s generalizing run with
  | nil =>
    rw [unquoteFrom, List.length_nil, Nat.add_zero]
    exact length_decodeUtf8_le.trans length_unquoteToBytes_le
  | cons c rest ih =>
    rw [unquoteFrom]
    split
    · have hrest := @ih (run ++ [c])
      simp only [List.length_append, List.length_cons, List.length_nil] at hrest ⊢
      omega
    · have hrun : (decodeUtf8 (unquoteToBytes run)).length ≤ run.length :=
        length_decodeUtf8_le.trans length_unquoteToBytes_le
      have hrest := @ih []
      simp only [List.length_append, List.length_cons, List.length_nil] at hrest ⊢
      omega

theorem length_unquote_le : (unquote s).length ≤ s.length := by
  rw [unquote]
  split
  · have hlength : (unquoteFrom [] s).length ≤ ([] : Text).length + s.length :=
      length_unquoteFrom_le
    simpa using hlength
  · exact le_rfl

theorem length_after {c : Char} (h : c ∈ s) :
    (s.takeWhile (· != c)).length + 1 + (after c s).length = s.length := by
  obtain ⟨rest, tail, rfl, hno⟩ := List.eq_append_cons_of_mem h
  rw [takeWhile_ne hno, after_append hno]
  simp
  omega

theorem splitScheme_cases (url : Text) : splitScheme url = ([], url) ∨
    ':' ∈ url ∧ splitScheme url = ((url.takeWhile (· != ':')).map Char.toLower, after ':' url) := by
  simp only [splitScheme]
  split
  · exact .inr ⟨‹_ ∧ _›.1, rfl⟩
  · exact .inl rfl

theorem splitNetloc_cases (url : Text) : splitNetloc url = ([], url) ∨
    url = '/' :: '/' :: ((splitNetloc url).1 ++ (splitNetloc url).2) := by
  unfold splitNetloc
  split
  · exact .inr (by simp)
  · exact .inl rfl

/-- A web URL is at least as long as its parts. -/
theorem length_urlsplit (h : urlsplit checks raw = .ok parts) (hscheme : parts.scheme ≠ [])
    (hnetloc : parts.netloc ≠ []) :
    parts.scheme.length + 3 + parts.netloc.length + parts.path.length ≤ raw.length := by
  simp only [urlsplit, except_bind_eq_ok, except_pure_eq_ok] at h
  obtain ⟨_, -, rfl⟩ := h
  simp only at hscheme hnetloc ⊢
  generalize hurl : (raw.dropWhile fun c => c.toNat ≤ 32).filter (fun c => !isBreak c) = url at *
  have hraw : url.length ≤ raw.length := by
    rw [← hurl]
    exact (List.length_filter_le _ _).trans (List.dropWhile_suffix _).length_le
  have hsplit : (splitScheme url).1.length + 1 + (splitScheme url).2.length = url.length := by
    rcases splitScheme_cases url with hnone | ⟨hcolon, hsome⟩
    · exact absurd (by rw [hnone]) hscheme
    · rw [hsome, List.length_map]
      exact length_after hcolon
  have hrest : 2 + (splitNetloc (splitScheme url).2).1.length +
      (splitNetloc (splitScheme url).2).2.length =
      (splitScheme url).2.length := by
    rcases splitNetloc_cases (splitScheme url).2 with hnone | hsome
    · exact absurd (by rw [hnone]) hnetloc
    · have hlength := congrArg List.length hsome
      simp only [List.length_append, List.length_cons] at hlength
      omega
  have hpath := ((List.takeWhile_prefix (p := (· != '?'))
    (l := (splitNetloc (splitScheme url).2).2.takeWhile (· != '#'))).length_le).trans
    (List.takeWhile_prefix _).length_le
  omega

end Lengths

/-- The library, over the lower case of the Unicode data. -/
def urllib (checks : NetlocChecks) (lower : Text → Text) : Urllib where
  urlsplit raw := do
    let parts ← urlsplit checks raw
    return { scheme := parts.scheme, hostname := hostname lower parts.netloc,
             port := port parts.netloc
             path := parts.path, query := parts.query }
  unquote
  lower

/-! ### Normalization -/

/-- The port without the default of the scheme. -/
def keptPort (scheme : Text) (port : Option Nat) : Option Nat :=
  if port ≠ none ∧ defaultPort scheme = port then none else port

/-- The decoded path, without its trailing slashes. -/
def tidyPath (decoded : Text) : Text :=
  let path := if decoded = [] then ['/'] else decoded
  if 1 < path.length ∧ path.getLast? = some '/' then path.rdropWhile isSlash else path

theorem normalizeUrl_eq_ok {lib : Urllib} {raw : Text} {n : NormalizedUrl} :
    normalizeUrl lib raw = .ok n ↔
    stripSpace raw ≠ [] ∧ ∃ parts port, lib.urlsplit (stripSpace raw) = .ok parts ∧
      lib.lower parts.scheme ∈ ["http".toList, "https".toList] ∧ parts.hostname.getD [] ≠ [] ∧
      parts.port = .ok port ∧
      n = { scheme := lib.lower parts.scheme, host := lib.lower (parts.hostname.getD [])
            port := keptPort (lib.lower parts.scheme) port, path :=
              tidyPath (lib.unquote parts.path)
            query := parts.query } := by
  simp only [normalizeUrl, except_bind_eq_ok, raiseIf_eq_ok, except_pure_eq_ok, not_not]
  constructor
  · rintro ⟨_, hne, parts, hsplit, _, hscheme, _, hhost, port, hport, rfl⟩
    exact ⟨hne, parts, port, hsplit, hscheme, hhost, hport, rfl⟩
  · rintro ⟨hne, parts, port, hsplit, hscheme, hhost, hport, rfl⟩
    exact ⟨(), hne, parts, hsplit, (), hscheme, (), hhost, port, hport, rfl⟩

end AssetStore
