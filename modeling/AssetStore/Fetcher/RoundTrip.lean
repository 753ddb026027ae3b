import Mathlib
import AssetStore.Fetcher.Images
import AssetStore.Fetcher.Urls

/-! The canonical form of a URL, read again. It is put together from a decoded path and a host
without brackets, so it reads back as the URL only when nothing in them is taken for a delimiter or
an escape, and nothing at its end for outer whitespace. -/

namespace AssetStore

open Lib

/-! ### Decoding what was decoded -/

section Escapes

variable {s run rest : Text} {c : Char}

theorem hexValue_wide (h : 128 ≤ c.toNat) : c ≠ '%' ∧ hexValue c = none := by
  have hnot : ∀ d : Char, d.toNat < 128 → ¬c ≤ d := by
    intro d hd hle
    have hval : c.toNat ≤ d.toNat := hle
    omega
  constructor
  · rintro rfl
    exact absurd h (by decide)
  · rw [hexValue, if_neg fun h => hnot '9' (by decide) h.2,
      if_neg fun h => hnot 'F' (by decide) h.2, if_neg fun h => hnot 'f' (by decide) h.2]

theorem hexByte_none {hi lo : Char} (h : hexValue hi = none ∨ hexValue lo = none) :
    hexByte hi lo = none := by
  rw [hexByte]
  rcases h with h | h
  · rw [h]
    rfl
  · rw [h]
    cases hexValue hi <;> rfl

/-- No escape runs across a character that is no part of one. -/
theorem escapedBytes_append (hc : c ≠ '%') (h : hexValue c = none) :
    escapedBytes (run ++ c :: rest) = escapedBytes run ++ escapedBytes rest := by
  induction run with
  | nil => simp [escapedBytes, hc]
  | cons d run ih =>
    have hlead : leadingByte (run ++ c :: rest) = leadingByte run := by
      match run with
      | [] =>
        cases rest with
        | nil => rfl
        | cons e rest => exact hexByte_none (.inl h)
      | [e] => exact hexByte_none (.inr h)
      | e :: e' :: run => rfl
    rw [List.cons_append, escapedBytes, escapedBytes, ih, hlead, List.append_assoc]

/-- Text without escapes is spelled by its own bytes. -/
theorem unquoteToBytes_plain (h : escapedBytes s = []) :
    unquoteToBytes s = s.map fun c => UInt8.ofNat c.toNat := by
  fun_induction unquoteToBytes s with
  | case1 hi lo rest b hb ih =>
    simp [escapedBytes, leadingByte, hb] at h
  | case2 hi lo rest hb ih =>
    rw [escapedBytes, List.append_eq_nil_iff] at h
    rw [ih h.2]
    rfl
  | case3 c rest hno ih =>
    rw [escapedBytes, List.append_eq_nil_iff] at h
    rw [ih h.2]
    rfl
  | case4 => rfl

/-- An escape makes the bytes fewer. -/
theorem length_unquoteToBytes_lt (h : escapedBytes s ≠ []) :
    (unquoteToBytes s).length < s.length := by
  fun_induction unquoteToBytes s with
  | case1 hi lo rest b hb ih =>
    have hle : (unquoteToBytes rest).length ≤ rest.length := length_unquoteToBytes_le
    simp only [List.length_cons]
    omega
  | case2 hi lo rest hb ih =>
    have hrest : escapedBytes (hi :: lo :: rest) ≠ [] := by
      rw [escapedBytes] at h
      simpa [leadingByte, hb] using h
    have hlt := ih hrest
    simp only [List.length_cons] at hlt ⊢
    omega
  | case3 c rest hno ih =>
    have hrest : escapedBytes rest ≠ [] := by
      intro hnil
      refine h ?_
      rw [escapedBytes, hnil, List.append_nil]
      split_ifs with hc
      · rcases rest with _ | ⟨hi, _ | ⟨lo, rest⟩⟩
        · rfl
        · rfl
        · exact (hno hi lo rest hc rfl).elim
      · rfl
    have hlt := ih hrest
    simp only [List.length_cons]
    omega
  | case4 => exact absurd rfl h

theorem decodeUtf8_ascii_cons {b : UInt8} {bytes : List UInt8} (h : b < 0x80) :
    decodeUtf8 (b :: bytes) = Char.ofNat b.toNat :: decodeUtf8 bytes := by
  conv_lhs => unfold decodeUtf8
  exact if_pos h

/-- ASCII bytes decode to their characters. -/
theorem decodeUtf8_ascii (h : ∀ c ∈ s, c.toNat < 128) :
    decodeUtf8 (s.map fun c => UInt8.ofNat c.toNat) = s := by
  induction s with
  | nil => rfl
  | cons c rest ih =>
    have hc := h c List.mem_cons_self
    have hbyte : (UInt8.ofNat c.toNat).toNat = c.toNat := by
      rw [UInt8.toNat_ofNat']
      omega
    have hlow : UInt8.ofNat c.toNat < 0x80 := by
      rw [UInt8.lt_iff_toNat_lt, hbyte]
      exact hc
    rw [List.map_cons, decodeUtf8_ascii_cons hlow, hbyte, Char.ofNat_toNat,
      ih fun d hd => h d (List.mem_cons_of_mem _ hd)]

theorem unquoteFrom_plain (hrun : ∀ c ∈ run, c.toNat < 128) (h : escapedBytes (run ++ s) = []) :
    unquoteFrom run s = run ++ s := by
  induction s generalizing run with
  | nil =>
    rw [List.append_nil] at h ⊢
    rw [unquoteFrom, unquoteToBytes_plain h, decodeUtf8_ascii hrun]
  | cons c rest ih =>
    rw [unquoteFrom]
    split
    · rename_i hc
      have hrun' : ∀ d ∈ run ++ [c], d.toNat < 128 := by
        intro d hd
        rcases List.mem_append.mp hd with hd | hd
        · exact hrun d hd
        · exact List.mem_singleton.mp hd ▸ hc
      rw [ih hrun' (by simpa using h)]
      simp
    · rename_i hc
      obtain ⟨hpercent, hvalue⟩ := hexValue_wide (not_lt.mp hc)
      rw [escapedBytes_append hpercent hvalue, List.append_eq_nil_iff] at h
      rw [unquoteToBytes_plain h.1, decodeUtf8_ascii hrun, @ih [] (by simp) h.2]
      rfl

theorem length_unquoteFrom_lt (h : escapedBytes (run ++ s) ≠ []) :
    (unquoteFrom run s).length < run.length + s.length := by
  have hdecoded : ∀ run : Text, (decodeUtf8 (unquoteToBytes run)).length ≤ run.length := fun run =>
    length_decodeUtf8_le.trans length_unquoteToBytes_le
  induction s generalizing run with
  | nil =>
    rw [List.append_nil] at h
    rw [unquoteFrom, List.length_nil, Nat.add_zero]
    exact length_decodeUtf8_le.trans_lt (length_unquoteToBytes_lt h)
  | cons c rest ih =>
    rw [unquoteFrom]
    split
    · have hrest := @ih (run ++ [c]) (by simpa using h)
      simp only [List.length_append, List.length_cons, List.length_nil] at hrest ⊢
      omega
    · rename_i hc
      obtain ⟨hpercent, hvalue⟩ := hexValue_wide (not_lt.mp hc)
      rw [escapedBytes_append hpercent hvalue] at h
      have hrun := hdecoded run
      simp only [List.length_append, List.length_cons]
      by_cases hnil : escapedBytes run = []
      · rw [hnil, List.nil_append] at h
        have hrest := @ih [] h
        simp only [List.length_nil] at hrest
        omega
      · have hshort := length_decodeUtf8_le.trans_lt (length_unquoteToBytes_lt hnil)
        have hrest : (unquoteFrom [] rest).length ≤ ([] : Text).length + rest.length :=
          length_unquoteFrom_le
        simp only [List.length_nil] at hrest
        omega

theorem escapedBytes_nil (h : '%' ∉ s) : escapedBytes s = [] := by
  induction s with
  | nil => rfl
  | cons c rest ih =>
    simp only [List.mem_cons, not_or] at h
    rw [escapedBytes, ih h.2, if_neg (Ne.symm h.1)]
    rfl

/-- Decoding leaves exactly the text without escapes as it is, and makes any other shorter. -/
theorem unquote_plain (h : escapedBytes s = []) : unquote s = s := by
  rw [unquote]
  split
  · exact unquoteFrom_plain (by simp) h
  · rfl

theorem length_unquote_lt (h : escapedBytes s ≠ []) : (unquote s).length < s.length := by
  rw [unquote]
  split
  · have hlength : (unquoteFrom [] s).length < ([] : Text).length + s.length :=
      length_unquoteFrom_lt h
    simpa using hlength
  · rename_i hno
    exact absurd (escapedBytes_nil hno) h

end Escapes

/-! ### The parts of a URL -/

/-- The part of a URL behind its network location, up to the query. -/
def pathOf (rest : Text) : Text :=
  ((rest.filter fun c => !isBreak c).takeWhile (· != '#')).takeWhile (· != '?')

/-- What `urlsplit` leaves in a web URL. -/
structure SplitUrl.Clean (parts : SplitUrl) : Prop where
  netloc : ∀ c ∈ parts.netloc, endsNetloc c = false ∧ isBreak c = false
  path : ∀ c ∈ parts.path.head?, c = '/'
  query : ∀ c ∈ parts.query, c ≠ '#' ∧ isBreak c = false

section Parts

variable {checks : NetlocChecks} {raw s : Text} {parts : SplitUrl}

theorem urlsplit_clean (h : urlsplit checks raw = .ok parts) (hnetloc : parts.netloc ≠ []) :
    parts.Clean := by
  simp only [urlsplit, except_bind_eq_ok, except_pure_eq_ok] at h
  obtain ⟨_, -, rfl⟩ := h
  simp only at hnetloc ⊢
  generalize hurl : (raw.dropWhile fun c => c.toNat ≤ 32).filter (fun c => !isBreak c) = url at *
  have hkept : ∀ c ∈ url, isBreak c = false := by
    intro c hc
    rw [← hurl] at hc
    simpa using (List.mem_filter.mp hc).2
  have hscheme : ∀ c ∈ (splitScheme url).2, c ∈ url := by
    intro c hc
    rcases splitScheme_cases url with hnone | ⟨-, hsome⟩
    · rwa [hnone] at hc
    · rw [hsome] at hc
      exact (List.dropWhile_suffix _).subset (List.mem_of_mem_drop hc)
  generalize (splitScheme url).2 = rest at *
  have hcut : splitNetloc rest = ([], rest) ∨ ∃ tail, rest = '/' :: '/' :: tail ∧
      splitNetloc rest = (tail.takeWhile fun c => !endsNetloc c, tail.dropWhile fun c =>
        !endsNetloc c) := by
    unfold splitNetloc
    split
    · exact .inr ⟨_, rfl, rfl⟩
    · exact .inl rfl
  obtain hnone | ⟨tail, rfl, hsome⟩ := hcut
  · exact absurd (by rw [hnone]) hnetloc
  rw [hsome]
  have htail : ∀ c ∈ tail, isBreak c = false := fun c hc =>
    hkept c (hscheme c (List.mem_cons_of_mem _ (List.mem_cons_of_mem _ hc)))
  have hbehind : ∀ c ∈ (tail.dropWhile fun c => !endsNetloc c).takeWhile (· != '#'),
      c ≠ '#' ∧ isBreak c = false := by
    intro c hc
    refine ⟨by simpa using List.mem_takeWhile_imp hc, htail c ?_⟩
    exact (List.dropWhile_suffix _).subset ((List.takeWhile_prefix _).subset hc)
  constructor
  · intro c hc
    exact ⟨by simpa using List.mem_takeWhile_imp hc, htail c ((List.takeWhile_prefix _).subset hc)⟩
  · intro c hc
    rw [List.head?_takeWhile, List.head?_takeWhile, Option.filter_filter] at hc
    obtain ⟨hhead, hkind⟩ := Option.mem_filter_iff.mp hc
    have hends := List.head?_dropWhile_not (fun c => !endsNetloc c) tail
    rw [Option.mem_def.mp hhead] at hends
    have hne : c ≠ '#' ∧ c ≠ '?' := by simpa using hkind
    simp only [endsNetloc, show "/?#".toList = ['/', '?', '#'] from rfl, List.contains_cons,
      List.contains_nil, Bool.or_false, Bool.not_eq_false', Bool.or_eq_true, beq_iff_eq] at hends
    rcases hends with rfl | rfl | rfl
    · rfl
    · exact absurd rfl hne.2
    · exact absurd rfl hne.1
  · intro c hc
    exact hbehind c ((List.dropWhile_suffix _).subset (List.mem_of_mem_drop hc))

end Parts

/-! ### The decoded path -/

section Paths

variable {s path : Text} {c : Char}

theorem unquoteFrom_slash {run : Text} : unquoteFrom ('/' :: run) s = '/' :: unquoteFrom run s := by
  have hbytes : ∀ run, unquoteToBytes ('/' :: run) = 0x2F :: unquoteToBytes run := by
    intro run
    rw [unquoteToBytes]
    · rfl
    · rintro hi lo rest ⟨⟩
  induction s generalizing run with
  | nil =>
    rw [unquoteFrom, hbytes, decodeUtf8_ascii_cons (by decide), unquoteFrom]
    rfl
  | cons c rest ih =>
    rw [unquoteFrom, unquoteFrom]
    split
    · exact ih
    · rw [hbytes, decodeUtf8_ascii_cons (by decide)]
      rfl

/-- Decoding leaves the slash in front of a path. -/
theorem unquote_slash : unquote ('/' :: s) = '/' :: unquote s := by
  have hmem : '%' ∈ '/' :: s ↔ '%' ∈ s := by simp
  rw [unquote, unquote]
  simp only [hmem]
  split
  · rw [unquoteFrom, if_pos (by decide)]
    exact unquoteFrom_slash
  · rfl

theorem unquote_head (h : ∀ c ∈ path.head?, c = '/') : ∀ c ∈ (unquote path).head?, c = '/' := by
  cases path with
  | nil => simp [unquote]
  | cons c path =>
    obtain rfl := h c rfl
    simp [unquote_slash]

theorem mem_rdropSlash (hslash : c ≠ '/') : c ∈ s.rdropWhile isSlash ↔ c ∈ s := by
  refine ⟨fun h => (List.rdropWhile_prefix _ _).subset h, fun h => ?_⟩
  have hsplit : s.rdropWhile isSlash ++ s.rtakeWhile isSlash = s :=
    List.rdropWhile_append_rtakeWhile
  rw [← hsplit] at h
  refine (List.mem_append.mp h).resolve_right fun hmem => hslash ?_
  simpa [isSlash] using List.mem_rtakeWhile_imp hmem

theorem escapedBytes_rdropSlash : escapedBytes (s.rdropWhile isSlash) = escapedBytes s := by
  induction s using List.reverseRecOn with
  | nil => rfl
  | append_singleton s c ih =>
    by_cases hc : isSlash c = true
    · obtain rfl : c = '/' := by simpa [isSlash] using hc
      rw [List.rdropWhile_concat_pos _ _ _ hc, ih, escapedBytes_append (by decide) (by decide),
        escapedBytes, List.append_nil]
    · rw [List.rdropWhile_concat_neg _ _ _ hc]

/-- A path that is tidied is a single slash or loses its trailing ones. -/
theorem tidyPath_eq (h : ∀ c ∈ s.head?, c = '/') :
    tidyPath s = if s.length ≤ 1 then ['/'] else s.rdropWhile isSlash := by
  match s with
  | [] => rfl
  | [c] =>
    obtain rfl := h c rfl
    rfl
  | c :: d :: s =>
    have hlong : 1 < (c :: d :: s).length := by simp
    rw [if_neg (not_le.mpr hlong)]
    simp only [tidyPath, reduceCtorEq, if_false]
    split
    · rfl
    · rename_i hno
      refine (List.rdropWhile_eq_self_iff.mpr fun hne hlast => hno ⟨hlong, ?_⟩).symm
      rw [List.getLast?_eq_some_getLast hne]
      simpa [isSlash] using hlast

theorem length_tidyPath_le (h : ∀ c ∈ s.head?, c = '/') : (tidyPath s).length ≤ max 1 s.length := by
  rw [tidyPath_eq h]
  split
  · simp
  · have hle := (List.rdropWhile_prefix isSlash s).length_le
    omega

end Paths

/-! ### The host -/

/-- What is used of `str.lower` on a host: it makes no other change to ASCII characters, and text
that it leaves as it is has no part that it changes. -/
structure Urllib.CaseLaws (lib : Urllib) : Prop extends lib.LowerLaws where
  other : ∀ s, ∀ c : Char, c.toNat < 128 → c.isAlpha = false → (c ∈ lib.lower s ↔ c ∈ s)
  parts : ∀ s t, lib.lower (s ++ t) = s ++ t → lib.lower s = s

/-- The host that `normalize_url` takes from a network location. -/
def hostOf (lower : Text → Text) (netloc : Text) : Text := lower ((hostname lower netloc).getD [])

/-- The authority in a canonical URL. -/
def authority (host : Text) : Option Nat → Text
  | none => host
  | some port => host ++ ':' :: showInt port

def portText : Option Nat → Text
  | none => []
  | some port => showInt port

section Hosts

variable {checks : NetlocChecks} {lower : Text → Text} {netloc host : Text} {c : Char}
  {port' : Option Nat}

theorem mem_hostOf (laws : (urllib checks lower).CaseLaws) (hascii : c.toNat < 128)
    (halpha : c.isAlpha = false) :
    c ∈ hostOf lower netloc ↔ c ∈ (hostinfo netloc).1 := by
  have hother : ∀ s, c ∈ lower s ↔ c ∈ s := fun s => laws.other s c hascii halpha
  rw [hostOf, hother, hostname]
  split
  · rename_i hnil
    rw [hnil]
    rfl
  · rw [Option.getD_some, List.mem_append, hother, ← List.mem_append,
      List.takeWhile_append_dropWhile]

theorem mem_hostinfo (h : c ∈ (hostinfo netloc).1) : c ∈ netloc ∧ c ≠ '@' := by
  have hinfo : ∀ d ∈ netloc.rtakeWhile (· != '@'), d ∈ netloc ∧ d ≠ '@' := fun d hd =>
    ⟨(List.rtakeWhile_suffix _ _).subset hd, by simpa using List.mem_rtakeWhile_imp hd⟩
  refine hinfo c ?_
  unfold hostinfo at h
  simp only at h
  split at h
  · exact (List.dropWhile_suffix _).subset
      (List.mem_of_mem_drop ((List.takeWhile_prefix _).subset h))
  · exact (List.takeWhile_prefix _).subset h

/-- A host ends in front of its closing bracket, and has no opening one unless it had two. -/
theorem hostinfo_bracket : '[' ∉ (hostinfo netloc).1 ∨ ']' ∉ (hostinfo netloc).1 := by
  unfold hostinfo
  simp only
  split
  · exact .inr fun hmem => absurd (List.mem_takeWhile_imp hmem) (by simp)
  · rename_i hno
    exact .inl fun hmem => hno ((List.takeWhile_prefix _).subset hmem)

/-- Without brackets, a host ends in front of its colon. -/
theorem hostinfo_colon (h : '[' ∉ netloc) : ':' ∉ (hostinfo netloc).1 := by
  unfold hostinfo
  simp only
  rw [if_neg fun hmem => h ((List.rtakeWhile_suffix _ _).subset hmem)]
  exact fun hmem => absurd (List.mem_takeWhile_imp hmem) (by simp)

theorem mem_showInt_nat {n : Nat} (h : c ∈ showInt n) : c.isDigit = true := by
  change c ∈ (toString (Int.ofNat n)).toList at h
  rw [toList_ofNat] at h
  exact Nat.isDigit_of_mem_toDigits (by decide) (by decide) h

theorem mem_authority {c : Char} (hcolon : c ≠ ':') (hdigit : c.isDigit = false) :
    c ∈ authority host port' ↔ c ∈ host := by
  cases port' with
  | none => rfl
  | some n =>
    rw [authority, List.mem_append, List.mem_cons]
    refine or_iff_left ?_
    rintro (rfl | h)
    · exact hcolon rfl
    · exact Bool.false_ne_true (hdigit.symm.trans (mem_showInt_nat h))

/-- An authority without delimiters in its host is taken apart again. -/
theorem hostinfo_authority (hcolon : ':' ∉ host) (hat : '@' ∉ host) (hbracket : '[' ∉ host) :
    hostinfo (authority host port') = (host, portText port') := by
  have hwhole : (authority host port').rtakeWhile (· != '@') = authority host port' := by
    refine List.rtakeWhile_eq_self_iff.mpr fun c hc => ?_
    have hno : '@' ∉ authority host port' := by rwa [mem_authority (by decide) (by decide)]
    exact ne_of_mem_of_not_mem hc hno
  rw [hostinfo]
  simp only [hwhole]
  rw [if_neg (by rwa [mem_authority (by decide) (by decide)])]
  cases port' with
  | none =>
    have hall : ∀ c ∈ host, (c != ':') = true := fun c hc => ne_of_mem_of_not_mem hc hcolon
    show (host.takeWhile (· != ':'), after ':' host) = _
    rw [List.takeWhile_eq_self_iff.mpr hall, after_of_not_mem hcolon]
    rfl
  | some n =>
    rw [authority, takeWhile_ne hcolon, after_append hcolon]
    rfl

/-- The port of an authority is the one that was written. -/
theorem port_authority (hcolon : ':' ∉ host) (hat : '@' ∉ host) (hbracket : '[' ∉ host)
    (hrange : ∀ n ∈ port', n ≤ 65535) : port (authority host port') = .ok port' := by
  rw [port, hostinfo_authority hcolon hat hbracket]
  cases port' with
  | none => rfl
  | some n =>
    have hn : n ≤ 65535 := hrange n rfl
    have hdigits : showInt n = Nat.toDigits 10 n := toList_ofNat n
    have hall : (Nat.toDigits 10 n).all Char.isDigit = true := List.all_eq_true.mpr fun c hc =>
      Nat.isDigit_of_mem_toDigits (by decide) (by decide) hc
    have hlength : (Nat.toDigits 10 n).length ≤ 5 :=
      (Nat.length_toDigits_le_iff (by decide) (by decide)).mpr (by omega)
    simp only [portText, hdigits, Nat.ofDigitChars_ten_toDigits]
    rw [if_neg Nat.toDigits_ne_nil, if_pos ⟨hall, by omega, hn⟩]

theorem port_le {n : Nat} (h : port netloc = .ok (some n)) : n ≤ 65535 := by
  unfold port at h
  simp only at h
  split at h
  · cases h
  · split at h
    · rename_i hread
      injection h with h
      injection h with h
      exact h ▸ hread.2.2
    · cases h

/-- A host that the case function leaves as it is is found again. -/
theorem hostname_authority (laws : (urllib checks lower).CaseLaws) (hne : host ≠ [])
    (hlower : lower host = host)
    (hcolon : ':' ∉ host) (hat : '@' ∉ host) (hbracket : '[' ∉ host) :
    hostname lower (authority host port') = some host := by
  have hzone : lower (host.takeWhile (· != '%')) = host.takeWhile (· != '%') :=
    laws.parts _ (host.dropWhile (· != '%')) (by
      rw [List.takeWhile_append_dropWhile]
      exact hlower)
  rw [hostname, hostinfo_authority hcolon hat hbracket]
  simp only
  rw [if_neg hne, hzone, List.takeWhile_append_dropWhile]

/-- What ends a network location, or is dropped from it, is in no authority. -/
theorem authority_clean (laws : (urllib checks lower).CaseLaws)
    (h : ∀ c ∈ netloc, endsNetloc c = false ∧ isBreak c = false) :
    ∀ c ∈ authority (hostOf lower netloc) port', endsNetloc c = false ∧ isBreak c = false := by
  have hmarks : ∀ c ∈ "/?#\t\r\n".toList, c.toNat < 128 ∧ c.isAlpha = false ∧ c ≠ ':' ∧
      c.isDigit = false := by
    decide
  have hno : ∀ c ∈ "/?#\t\r\n".toList, c ∉ netloc → c ∉ authority (hostOf lower netloc) port' := by
    intro c hc hmem hin
    obtain ⟨hascii, halpha, hcolon, hdigit⟩ := hmarks c hc
    rw [mem_authority hcolon hdigit, mem_hostOf laws hascii halpha] at hin
    exact hmem (mem_hostinfo hin).1
  intro c hc
  constructor
  · by_contra hends
    rw [Bool.not_eq_false, endsNetloc, List.contains_iff_mem] at hends
    refine hno c ?_ (fun hmem => ?_) hc
    · exact List.mem_append_left "\t\r\n".toList hends
    · have hfalse := (h c hmem).1
      rw [endsNetloc, List.contains_iff_mem.mpr hends] at hfalse
      cases hfalse
  · by_contra hbreak
    rw [Bool.not_eq_false, isBreak, List.contains_iff_mem] at hbreak
    refine hno c ?_ (fun hmem => ?_) hc
    · exact List.mem_append_right "/?#".toList hbreak
    · have hfalse := (h c hmem).2
      rw [isBreak, List.contains_iff_mem.mpr hbreak] at hfalse
      cases hfalse

/-- An authority that is accepted has a host without brackets. -/
theorem bracket_not_mem (laws : (urllib checks lower).CaseLaws)
    (h : acceptsNetloc checks (authority (hostOf lower netloc) port') = true) :
    '[' ∉ hostOf lower netloc := by
  have hopen : '[' ∈ hostOf lower netloc ↔ '[' ∈ (hostinfo netloc).1 :=
    mem_hostOf laws (by decide) (by decide)
  have hclose : ']' ∈ hostOf lower netloc ↔ ']' ∈ (hostinfo netloc).1 :=
    mem_hostOf laws (by decide) (by decide)
  have hboth : '[' ∈ hostOf lower netloc ↔ ']' ∈ hostOf lower netloc := by
    simp only [acceptsNetloc, Bool.and_eq_true, beq_iff_eq, decide_eq_decide] at h
    rw [← mem_authority (by decide) (by decide), h.1.1, mem_authority (by decide) (by decide)]
  rcases @hostinfo_bracket netloc with hno | hno
  · rwa [hopen]
  · rwa [hboth, hclose]

end Hosts

/-! ### What is behind the authority -/

/-- The query of a URL behind its network location. -/
def queryOf (rest : Text) : Text :=
  after '?' ((rest.filter fun c => !isBreak c).takeWhile (· != '#'))

/-- A path and a query, as they stand in a canonical URL. -/
def behind (path query : Text) : Text := path ++ if query = [] then [] else '?' :: query

/-- The path and the query that are found again behind an authority. -/
structure ReadsBack (path query : Text) : Prop where
  nonempty : path ≠ []
  delimiters : ∀ c ∈ path, c ≠ '?' ∧ c ≠ '#' ∧ isBreak c = false
  escapes : escapedBytes path = []
  ending : ∀ c ∈ (if query = [] then path else query).getLast?, isSpace c = false

section Behind

variable {path query s rest : Text} {c : Char}

theorem pathOf_eq :
    pathOf s = (s.filter fun c => !isBreak c).takeWhile fun c => c != '?' && c != '#' := by
  rw [pathOf, List.takeWhile_takeWhile]
  congr 1
  funext c
  by_cases hmark : c = '?' <;> by_cases hhash : c = '#' <;> simp [hmark, hhash]

theorem pathOf_query : pathOf (path ++ '?' :: rest) = pathOf path := by
  rw [pathOf_eq, pathOf_eq, List.filter_append, List.filter_cons_of_pos (by decide),
    List.takeWhile_append]
  split
  · rename_i hall
    rw [List.takeWhile_cons_of_neg (by decide), List.append_nil]
    exact ((List.takeWhile_prefix _).eq_of_length hall).symm
  · rfl

theorem pathOf_sublist : (pathOf s).Sublist s :=
  pathOf_eq ▸ (List.takeWhile_sublist _).trans List.filter_sublist

theorem mem_pathOf (h : c ∈ pathOf s) : c ≠ '?' ∧ c ≠ '#' ∧ isBreak c = false := by
  rw [pathOf_eq] at h
  have hdelimiter : c ≠ '?' ∧ c ≠ '#' := by simpa using List.mem_takeWhile_imp h
  have hbreak : isBreak c = false := by
    simpa using (List.mem_filter.mp ((List.takeWhile_prefix _).subset h)).2
  exact ⟨hdelimiter.1, hdelimiter.2, hbreak⟩

theorem pathOf_clean (h : ∀ c ∈ path, c ≠ '?' ∧ c ≠ '#' ∧ isBreak c = false) :
    pathOf path = path := by
  rw [pathOf_eq, List.filter_eq_self.mpr fun c hc => by simp [(h c hc).2.2]]
  exact List.takeWhile_eq_self_iff.mpr fun c hc => by simp [(h c hc).1, (h c hc).2.1]

theorem queryOf_path (h : ∀ c ∈ path, c ≠ '?' ∧ c ≠ '#' ∧ isBreak c = false) :
    queryOf path = [] := by
  rw [queryOf, List.filter_eq_self.mpr fun c hc => by simp [(h c hc).2.2],
    List.takeWhile_eq_self_iff.mpr fun c hc => by simp [(h c hc).2.1]]
  exact after_of_not_mem fun hmem => (h '?' hmem).1 rfl

theorem queryOf_append (h : ∀ c ∈ path, c ≠ '?' ∧ c ≠ '#' ∧ isBreak c = false)
    (hquery : ∀ c ∈ query, c ≠ '#' ∧ isBreak c = false) :
    queryOf (path ++ '?' :: query) = query := by
  have hkept : ∀ c ∈ path ++ '?' :: query, c ≠ '#' ∧ isBreak c = false := by
    intro c hc
    rcases List.mem_append.mp hc with hc | hc
    · exact (h c hc).2
    · rcases List.mem_cons.mp hc with rfl | hc
      · decide
      · exact hquery c hc
  rw [queryOf, List.filter_eq_self.mpr fun c hc => by simp [(hkept c hc).2],
    List.takeWhile_eq_self_iff.mpr fun c hc => by simp [(hkept c hc).1]]
  exact after_append fun hmem => (h '?' hmem).1 rfl

/-- Outer whitespace is taken off the query, or off the path when there is none. -/
theorem behind_rdrop : (behind path query).rdropWhile isSpace =
    if query = [] then path.rdropWhile isSpace else path ++ '?' :: query.rdropWhile isSpace := by
  rw [behind]
  split
  · rw [List.append_nil]
  · have hmark : ('?' :: query).rdropWhile isSpace = '?' :: query.rdropWhile isSpace := by
      rw [show '?' :: query = ['?'] ++ query from rfl, rdropWhile_append]
      split
      · rename_i hnil
        rw [hnil]
        rfl
      · rfl
    rw [rdropWhile_append, hmark, if_neg (List.cons_ne_nil _ _)]

theorem rdropSpace_eq_self : s.rdropWhile isSpace = s ↔ ∀ c ∈ s.getLast?, isSpace c = false := by
  rw [List.rdropWhile_eq_self_iff]
  constructor
  · intro h c hc
    have hne : s ≠ [] := by
      rintro rfl
      cases hc
    rw [List.getLast?_eq_some_getLast hne, Option.mem_some_iff] at hc
    simpa [hc] using h hne
  · intro h hne
    simpa using h _ (List.getLast?_eq_some_getLast hne)

/-- A path and a query that read back are what is found behind the authority. -/
theorem ReadsBack.found (h : ReadsBack path query)
    (hquery : ∀ c ∈ query, c ≠ '#' ∧ isBreak c = false) :
    (behind path query).rdropWhile isSpace = behind path query ∧ pathOf (behind path query) = path ∧
      queryOf (behind path query) = query := by
  have hending := rdropSpace_eq_self.mpr h.ending
  rw [behind_rdrop, behind]
  split at hending
  · rename_i hnil
    rw [if_pos hnil, if_pos hnil, List.append_nil]
    exact ⟨hending, pathOf_clean h.delimiters, hnil ▸ queryOf_path h.delimiters⟩
  · rename_i hnil
    rw [if_neg hnil, if_neg hnil]
    refine ⟨by rw [hending], ?_, queryOf_append h.delimiters hquery⟩
    rw [pathOf_query, pathOf_clean h.delimiters]

theorem pathOf_slash : pathOf ('/' :: s) = '/' :: pathOf s := by
  rw [pathOf_eq, pathOf_eq, List.filter_cons_of_pos (by decide),
    List.takeWhile_cons_of_pos (by decide)]

/-- The path that is read has the length of the tidied path only when nothing of it was taken for
something else. -/
theorem readsBack_of_found (hslash : ∀ c ∈ path.head?, c = '/')
    (hquery : ∀ c ∈ query, c ≠ '#' ∧ isBreak c = false)
    (hpath : tidyPath (unquote (pathOf ((behind path query).rdropWhile isSpace))) = path)
    (hfound : queryOf ((behind path query).rdropWhile isSpace) = query) : ReadsBack path query := by
  -- what is left of the path when outer whitespace is dropped
  generalize hfront : (if query = [] then path.rdropWhile isSpace else path) = front
  have hpre : front <+: path := by
    rw [← hfront]
    split
    · exact List.rdropWhile_prefix _ _
    · exact List.prefix_refl _
  have hread : pathOf ((behind path query).rdropWhile isSpace) = pathOf front := by
    rw [behind_rdrop, ← hfront]
    split
    · rfl
    · exact pathOf_query
  rw [hread] at hpath
  have hne : path ≠ [] := by
    rintro rfl
    obtain rfl : front = [] := List.prefix_nil.mp hpre
    exact absurd hpath (by decide)
  have hslashed : ∃ t, pathOf front = '/' :: t := by
    obtain ⟨c, t, rfl⟩ := List.exists_cons_of_ne_nil hne
    obtain rfl := hslash c rfl
    obtain ⟨t', rfl⟩ : ∃ t', front = '/' :: t' := by
      rw [← hfront, show '/' :: t = ['/'] ++ t from rfl, rdropWhile_append]
      split
      · split
        · exact ⟨[], rfl⟩
        · exact ⟨_, rfl⟩
      · exact ⟨_, rfl⟩
    exact ⟨_, pathOf_slash⟩
  have hhead : ∀ c ∈ (pathOf front).head?, c = '/' := by
    obtain ⟨t, ht⟩ := hslashed
    simp [ht]
  have hlength : path.length ≤ max 1 (unquote (pathOf front)).length := by
    nth_rewrite 1 [← hpath]
    exact length_tidyPath_le (unquote_head hhead)
  have hpositive : 0 < (pathOf front).length := by
    obtain ⟨t, ht⟩ := hslashed
    simp [ht]
  have hdecoded : (unquote (pathOf front)).length ≤ (pathOf front).length := length_unquote_le
  have hsame : pathOf front = path :=
    (pathOf_sublist.trans hpre.sublist).eq_of_length_le (by omega)
  have hwhole : front = path := by
    refine hpre.eq_of_length_le ?_
    have hle := (pathOf_sublist (s := front)).length_le
    rwa [hsame] at hle
  have hclean : ∀ c ∈ path, c ≠ '?' ∧ c ≠ '#' ∧ isBreak c = false :=
    fun c hc => mem_pathOf (hsame ▸ hc)
  refine ⟨hne, hclean, ?_, ?_⟩
  · by_contra hescapes
    have hshort := length_unquote_lt hescapes
    rw [hsame] at hlength
    obtain ⟨c, rfl⟩ : ∃ c, path = [c] := List.length_eq_one_iff.mp (by
      have hpos := List.length_pos_iff.mpr hne
      omega)
    obtain rfl := hslash c rfl
    exact hescapes (by decide)
  · refine rdropSpace_eq_self.mp ?_
    rw [behind_rdrop] at hfound
    split at hfound
    · rename_i hnil
      rw [if_pos hnil] at hfront ⊢
      rw [hfront, hwhole]
    · rename_i hnil
      rw [if_neg hnil]
      rwa [queryOf_append hclean] at hfound
      intro c hc
      exact hquery c ((List.rdropWhile_prefix _ _).subset hc)

end Behind

/-! ### The round trip -/

/-- The URLs whose canonical form is read as they are, by what `urlsplit` finds in them. Decoding
the path has left nothing in it that a second reading takes for a delimiter, an escape or the
whitespace around a URL, and the host stands without brackets. -/
structure SplitUrl.Rereads (checks : NetlocChecks) (lower : Text → Text)
    (parts : SplitUrl) : Prop where
  colon : ':' ∉ (hostinfo parts.netloc).1
  netloc : acceptsNetloc checks (authority (hostOf lower parts.netloc)
    (keptPort (lower parts.scheme) (port parts.netloc).toOption.join)) = true
  slashes : (unquote parts.path).length ≤ 1 ∨ (unquote parts.path).rdropWhile isSlash ≠ []
  delimiters : ∀ c ∈ unquote parts.path, c ≠ '?' ∧ c ≠ '#' ∧ isBreak c = false
  escapes : escapedBytes (unquote parts.path) = []
  ending : ∀ c ∈ (if parts.query = [] then (unquote parts.path).rdropWhile isSlash
    else parts.query).getLast?, isSpace c = false

section RoundTrip

variable {checks : NetlocChecks} {lower : Text → Text} {raw decoded query scheme tail : Text}
  {parts : SplitUrl}
  {n : NormalizedUrl}

/-- The tidied path reads back when the decoded one does. -/
theorem readsBack_tidyPath (h : ∀ c ∈ decoded.head?, c = '/') : ReadsBack (tidyPath decoded) query ↔
    (decoded.length ≤ 1 ∨ decoded.rdropWhile isSlash ≠ []) ∧
      (∀ c ∈ decoded, c ≠ '?' ∧ c ≠ '#' ∧ isBreak c = false) ∧ escapedBytes decoded = [] ∧
      ∀ c ∈ (if query = [] then decoded.rdropWhile isSlash else query).getLast?,
        isSpace c = false := by
  rw [tidyPath_eq h]
  by_cases hshort : decoded.length ≤ 1
  · obtain rfl | rfl : decoded = [] ∨ decoded = ['/'] := by
      match decoded, hshort with
      | [], _ => exact .inl rfl
      | [c], _ => exact .inr (by rw [h c rfl])
    all_goals
      have hroot : (∀ c ∈ (if query = [] then ['/'] else query).getLast?, isSpace c = false) ↔
          ∀ c ∈ (if query = [] then [].rdropWhile isSlash else query).getLast?,
            isSpace c = false := by
        by_cases hnil : query = []
        · simp only [if_pos hnil]
          decide
        · simp only [if_neg hnil]
      rw [if_pos hshort]
      exact ⟨fun hback => ⟨.inl hshort, by decide, by decide, hroot.mp hback.ending⟩,
        fun hall => ⟨by decide, by decide, by decide, hroot.mpr hall.2.2.2⟩⟩
  · rw [if_neg hshort]
    constructor
    · intro hback
      refine ⟨.inr hback.nonempty, fun c hc => ?_, escapedBytes_rdropSlash ▸ hback.escapes,
        hback.ending⟩
      by_cases hslash : c = '/'
      · rw [hslash]
        decide
      · exact hback.delimiters c ((mem_rdropSlash hslash).mpr hc)
    · rintro ⟨hslashes, hdelimiters, hescapes, hending⟩
      exact ⟨hslashes.resolve_left hshort,
        fun c hc => hdelimiters c ((List.rdropWhile_prefix _ _).subset hc),
        escapedBytes_rdropSlash.trans hescapes, hending⟩

theorem stripSpace_web (hscheme : scheme ∈ ["http".toList, "https".toList]) :
    stripSpace (scheme ++ ':' :: '/' :: '/' :: tail) = scheme ++ ':' :: '/' :: '/' ::
      tail.rdropWhile isSpace := by
  have hall : ∀ s ∈ ["http".toList, "https".toList], (∀ c ∈ s, isSpace c = false) := by decide
  have hfront : ∀ c ∈ scheme ++ ':' :: '/' :: '/' :: [], isSpace c = false := by
    intro c hc
    rcases List.mem_append.mp hc with hc | hc
    · exact hall scheme hscheme c hc
    · have hmarks : ∀ c ∈ "://".toList, isSpace c = false := by decide
      exact hmarks c hc
  have hne : scheme ≠ [] := by
    rintro rfl
    exact absurd hscheme (by decide)
  obtain ⟨c, t, rfl⟩ := List.exists_cons_of_ne_nil hne
  rw [stripSpace, strip, List.cons_append, List.dropWhile_cons_of_neg (by simp [hall _ hscheme c]),
    show c :: (t ++ ':' :: '/' :: '/' :: tail) = (c :: t ++ ':' :: '/' :: '/' :: []) ++ tail by
      simp,
    rdropWhile_append]
  split
  · rename_i hnil
    rw [rdropWhile_eq_self_of_forall hfront, hnil]
  · simp

/-- The text of a canonical URL. -/
theorem canonical_eq : n.canonical =
    n.scheme ++ ':' :: '/' :: '/' :: (authority n.host n.port ++ behind n.path n.query) := by
  have hmarks : "://".toList = [':', '/', '/'] := rfl
  unfold NormalizedUrl.canonical behind
  cases n.port <;> by_cases hquery : n.query = [] <;> simp [hquery, hmarks, authority]

theorem keptPort_idem (scheme : Text) (port : Option Nat) :
    keptPort scheme (keptPort scheme port) = keptPort scheme port := by
  unfold keptPort
  split <;> simp [*]

theorem rdropSlash_head (h : ∀ c ∈ decoded.head?, c = '/') :
    ∀ c ∈ (decoded.rdropWhile isSlash).head?, c = '/' := by
  intro c hc
  obtain ⟨dropped, hdropped⟩ := List.rdropWhile_prefix isSlash decoded
  refine h c ?_
  rw [← hdropped, List.head?_append, Option.mem_def.mp hc]
  rfl

theorem tidyPath_head (h : ∀ c ∈ decoded.head?, c = '/') :
    ∀ c ∈ (tidyPath decoded).head?, c = '/' := by
  rw [tidyPath_eq h]
  split
  · simp
  · exact rdropSlash_head h

theorem tidyPath_idem (h : ∀ c ∈ decoded.head?, c = '/') (hne : tidyPath decoded ≠ []) :
    tidyPath (tidyPath decoded) = tidyPath decoded := by
  have hhead := tidyPath_head h
  by_cases hshort : decoded.length ≤ 1
  · rw [tidyPath_eq h, if_pos hshort]
    rfl
  · rw [tidyPath_eq hhead]
    rw [tidyPath_eq h, if_neg hshort] at hne hhead ⊢
    split
    · rename_i hone
      obtain ⟨c, t, ht⟩ := List.exists_cons_of_ne_nil hne
      rw [ht] at hone hhead ⊢
      obtain rfl : t = [] := List.length_eq_zero_iff.mp (by simpa using hone)
      rw [hhead c rfl]
    · exact List.rdropWhile_idempotent _ _

/-- What is used of a URL that was accepted and of the URL that its canonical form is. -/
theorem urlsplit_canonical (hscheme : n.scheme ∈ ["http".toList, "https".toList])
    (hauthority : ∀ c ∈ authority n.host n.port, endsNetloc c = false ∧ isBreak c = false)
    (hpath : ∀ c ∈ n.path.head?, c = '/') :
    ∃ netloc, (n.path ≠ [] → netloc = authority n.host n.port) ∧
      urlsplit checks (stripSpace n.canonical) = (do
        raiseIf (acceptsNetloc checks netloc = false) FetchError.valueError
        return { scheme := n.scheme, netloc,
                 path := pathOf ((behind n.path n.query).rdropWhile isSpace)
                 query := queryOf ((behind n.path n.query).rdropWhile isSpace) }) := by
  have hends : ∀ c ∈ ((behind n.path n.query).rdropWhile isSpace).head?, endsNetloc c = true := by
    intro c hc
    have hfirst : c ∈ (behind n.path n.query).head? := by
      obtain ⟨dropped, hdropped⟩ := List.rdropWhile_prefix isSpace (behind n.path n.query)
      rw [← hdropped, List.head?_append, Option.mem_def.mp hc]
      rfl
    rw [behind, List.head?_append] at hfirst
    cases hnil : n.path.head? with
    | some d =>
      obtain rfl := hpath d hnil
      rw [hnil] at hfirst
      obtain rfl := Option.mem_some_iff.mp hfirst
      decide
    | none =>
      rw [hnil, Option.none_or] at hfirst
      split at hfirst
      · cases hfirst
      · obtain rfl := Option.mem_some_iff.mp hfirst
        decide
  have hcut : ∃ netloc, (n.path ≠ [] → netloc = authority n.host n.port) ∧
      netloc <+: authority n.host n.port ∧
      (authority n.host n.port ++ behind n.path n.query).rdropWhile isSpace =
        netloc ++ (behind n.path n.query).rdropWhile isSpace := by
    rw [rdropWhile_append]
    split
    · rename_i hnil
      refine ⟨_, fun hne => ?_, List.rdropWhile_prefix isSpace _, by rw [hnil, List.append_nil]⟩
      obtain ⟨c, t, ht⟩ := List.exists_cons_of_ne_nil hne
      obtain rfl := hpath c (by rw [ht]; rfl)
      have hspace := List.rdropWhile_eq_nil_iff.mp hnil '/' (by simp [behind, ht])
      exact absurd hspace (by decide)
    · exact ⟨_, fun _ => rfl, List.prefix_refl _, rfl⟩
  obtain ⟨netloc, hwhole, hpre, hcut⟩ := hcut
  refine ⟨netloc, hwhole, ?_⟩
  rw [canonical_eq, stripSpace_web hscheme, hcut,
    urlsplit_authority hscheme (fun c hc => hauthority c (hpre.subset hc)) hends]
  rfl

/-- What `normalize_url` makes of the parts of a URL. -/
structure Normalizes (lower : Text → Text) (parts : SplitUrl) (n : NormalizedUrl) : Prop where
  clean : parts.Clean
  scheme : n.scheme ∈ ["http".toList, "https".toList]
  lowered : lower n.scheme = n.scheme
  host : n.host = hostOf lower parts.netloc
  named : n.host ≠ []
  port : n.port = keptPort (lower parts.scheme) (port parts.netloc).toOption.join
  kept : keptPort n.scheme n.port = n.port
  bounded : ∀ k ∈ n.port, k ≤ 65535
  path : n.path = tidyPath (unquote parts.path)
  query : n.query = parts.query

theorem normalizes_of_ok (laws : (urllib checks lower).CaseLaws)
    (h : normalizeUrl (urllib checks lower) raw = .ok n) :
    ∃ parts, urlsplit checks (stripSpace raw) = .ok parts ∧ Normalizes lower parts n := by
  obtain ⟨-, parts', p, hsplit, hscheme, hhost, hport, rfl⟩ := normalizeUrl_eq_ok.mp h
  simp only [urllib, except_bind_eq_ok, except_pure_eq_ok] at hsplit
  obtain ⟨parts, hsplit, rfl⟩ := hsplit
  have hnetloc : parts.netloc ≠ [] := by
    intro hnil
    simp only [hnil] at hhost
    exact hhost rfl
  refine ⟨parts, hsplit, urlsplit_clean hsplit hnetloc, hscheme, laws.idem _, rfl,
    laws.nonempty _ hhost, ?_, keptPort_idem _ _, fun k hk => ?_, rfl, rfl⟩
  · show keptPort (lower parts.scheme) p = _
    rw [show port parts.netloc = .ok p from hport]
    rfl
  · have hkept : p = some k := by
      unfold keptPort at hk
      split at hk
      · cases hk
      · exact hk
    exact port_le (hkept ▸ hport)

section Normalized

variable (laws : (urllib checks lower).CaseLaws) (source : Normalizes lower parts n)
include laws source

theorem Normalizes.reread : ∃ netloc, (n.path ≠ [] → netloc = authority n.host n.port) ∧
    urlsplit checks (stripSpace n.canonical) = (do
      raiseIf (acceptsNetloc checks netloc = false) FetchError.valueError
      return { scheme := n.scheme, netloc,
               path := pathOf ((behind n.path n.query).rdropWhile isSpace)
               query := queryOf ((behind n.path n.query).rdropWhile isSpace) }) := by
  refine urlsplit_canonical source.scheme ?_ ?_
  · rw [source.host]
    exact authority_clean laws source.clean.netloc
  · rw [source.path]
    exact tidyPath_head (unquote_head source.clean.path)

/-- A canonical URL that is read as it was written had nothing to be taken for something else. -/
theorem Normalizes.rereads (hback : normalizeUrl (urllib checks lower) n.canonical = .ok n) :
    parts.Rereads checks lower := by
  obtain ⟨netloc, hwhole, hcanonical⟩ := source.reread laws
  obtain ⟨-, back', p', hsplit', -, -, -, hn'⟩ := normalizeUrl_eq_ok.mp hback
  simp only [urllib, hcanonical, except_bind_eq_ok, raiseIf_eq_ok, except_pure_eq_ok] at hsplit'
  obtain ⟨back, ⟨_, haccepts, rfl⟩, rfl⟩ := hsplit'
  have hhead := unquote_head source.clean.path
  have hreads : ReadsBack n.path n.query := by
    refine readsBack_of_found ?_ ?_ (congrArg NormalizedUrl.path hn').symm
      (congrArg NormalizedUrl.query hn').symm
    · rw [source.path]
      exact tidyPath_head hhead
    · rw [source.query]
      exact source.clean.query
  obtain rfl := hwhole hreads.nonempty
  rw [Bool.not_eq_false, source.host, source.port] at haccepts
  have hhost : n.host = hostOf lower (authority n.host n.port) := congrArg NormalizedUrl.host hn'
  rw [source.path, source.query, readsBack_tidyPath hhead] at hreads
  obtain ⟨hslashes, hdelimiters, hescapes, hending⟩ := hreads
  refine ⟨?_, haccepts, hslashes, hdelimiters, hescapes, hending⟩
  have hno : '[' ∉ authority n.host n.port := by
    rw [mem_authority (by decide) (by decide), source.host]
    exact bracket_not_mem laws haccepts
  rw [← mem_hostOf laws (by decide) (by decide), ← source.host, hhost,
    mem_hostOf laws (by decide) (by decide)]
  exact hostinfo_colon hno

theorem Normalizes.canonical_ok (hreads : parts.Rereads checks lower) :
    normalizeUrl (urllib checks lower) n.canonical = .ok n := by
  obtain ⟨netloc, hwhole, hcanonical⟩ := source.reread laws
  have hbehind : ReadsBack n.path n.query := by
    rw [source.path, source.query, readsBack_tidyPath (unquote_head source.clean.path)]
    exact ⟨hreads.slashes, hreads.delimiters, hreads.escapes, hreads.ending⟩
  obtain ⟨hspace, hpathOf, hqueryOf⟩ := hbehind.found (by
    rw [source.query]
    exact source.clean.query)
  obtain rfl := hwhole hbehind.nonempty
  have haccepts := hreads.netloc
  rw [← source.host, ← source.port] at haccepts
  have hlower : lower n.host = n.host := by
    rw [source.host]
    exact laws.idem _
  have hcolon : ':' ∉ n.host := by
    rw [source.host, mem_hostOf laws (by decide) (by decide)]
    exact hreads.colon
  have hat : '@' ∉ n.host := by
    rw [source.host, mem_hostOf laws (by decide) (by decide)]
    exact fun hmem => (mem_hostinfo hmem).2 rfl
  have hbracket : '[' ∉ n.host := by
    rw [source.host]
    exact bracket_not_mem laws hreads.netloc
  have hne : stripSpace n.canonical ≠ [] := by
    rw [canonical_eq, stripSpace_web source.scheme]
    simp
  have hnamed : hostname lower (authority n.host n.port) = some n.host :=
    hostname_authority laws source.named hlower hcolon hat hbracket
  have hsplit : (urllib checks lower).urlsplit (stripSpace n.canonical) = .ok
      { scheme := n.scheme, hostname := some n.host, port := .ok n.port, path := n.path,
        query := n.query } := by
    simp only [urllib, hcanonical, haccepts, hspace, hpathOf, hqueryOf]
    rw [← hnamed, ← port_authority hcolon hat hbracket source.bounded]
    rfl
  have hpath : tidyPath (unquote n.path) = n.path := by
    rw [unquote_plain hbehind.escapes, source.path]
    exact tidyPath_idem (unquote_head source.clean.path) (source.path ▸ hbehind.nonempty)
  have hscheme : (urllib checks lower).lower n.scheme = n.scheme := source.lowered
  refine normalizeUrl_eq_ok.mpr ⟨hne, _, n.port, hsplit, ?_, source.named, rfl, ?_⟩
  · rw [hscheme]
    exact source.scheme
  · rw [hscheme, source.kept]
    show n = { n with host := lower n.host, path := tidyPath (unquote n.path) }
    rw [hlower, hpath]

end Normalized

/-- The canonical form of an accepted URL is read as the same URL exactly when the parts of the URL
read back. -/
theorem canonical_rereads_iff (laws : (urllib checks lower).CaseLaws)
    (h : normalizeUrl (urllib checks lower) raw = .ok n) :
    normalizeUrl (urllib checks lower) n.canonical = .ok n ↔
      ∃ parts, urlsplit checks (stripSpace raw) = .ok parts ∧ parts.Rereads checks lower := by
  obtain ⟨parts, hsplit, hfrom⟩ := normalizes_of_ok laws h
  constructor
  · exact fun hback => ⟨parts, hsplit, hfrom.rereads laws hback⟩
  · rintro ⟨_, hsame, hreads⟩
    obtain rfl := Except.ok.inj (hsplit.symm.trans hsame)
    exact hfrom.canonical_ok laws hreads

end RoundTrip

/-! ### ASCII hosts -/

/-- The library for hosts without Unicode or address literals. -/
def webUrllib : Urllib := urllib uncheckedNetloc (List.map Char.toLower)

theorem webUrllib_laws : webUrllib.CaseLaws where
  idem := asciiUrllib_laws.idem
  ascii := asciiUrllib_laws.ascii
  slash := asciiUrllib_laws.slash
  dot := asciiUrllib_laws.dot
  nonempty := asciiUrllib_laws.nonempty
  other s c hascii halpha := by
    have hletter : ¬(65 ≤ c.toNat ∧ c.toNat ≤ 90) ∧ ¬(97 ≤ c.toNat ∧ c.toNat ≤ 122) := by
      simp only [Char.isAlpha, Char.isUpper, Char.isLower, Bool.or_eq_false_iff, ← Bool.decide_and,
        decide_eq_false_iff_not] at halpha
      exact halpha
    constructor
    · intro hmem
      obtain ⟨d, hd, heq⟩ := List.mem_map.mp hmem
      rcases toLower_cases d with hsame | ⟨hlow, hhigh, hlowered⟩
      · rwa [← heq, hsame]
      · rw [heq] at hlowered
        omega
    · intro hmem
      refine List.mem_map.mpr ⟨c, hmem, ?_⟩
      rcases toLower_cases c with hsame | ⟨hlow, hhigh, -⟩
      · exact hsame
      · omega
  parts s t h := by
    change (s ++ t).map Char.toLower = s ++ t at h
    rw [List.map_append] at h
    exact List.append_inj_left h (List.length_map _)

/-- A plain URL is read back. -/
theorem plain_canonical_rereads : ∃ n, normalizeUrl webUrllib "http://H/a%20b/?q".toList = .ok n ∧
    normalizeUrl webUrllib n.canonical = .ok n := by
  have hok : normalizeUrl webUrllib "http://H/a%20b/?q".toList =
      .ok { scheme := "http".toList, host := "h".toList, port := none, path := "/a b".toList,
            query := "q".toList } := by
    decide +kernel
  have hsplit : urlsplit uncheckedNetloc (stripSpace "http://H/a%20b/?q".toList) =
      .ok { scheme := "http".toList, netloc := "H".toList, path := "/a%20b/".toList,
            query := "q".toList } := by
    decide +kernel
  refine ⟨_, hok, (canonical_rereads_iff webUrllib_laws hok).mpr ⟨_, hsplit, ?_⟩⟩
  exact ⟨by
    decide, by decide +kernel, by decide +kernel, by decide +kernel, by decide +kernel, by decide⟩

/-- An escaped escape is decoded a second time. -/
theorem escape_decoded_again : ∃ n again, normalizeUrl webUrllib "http://h/%2541".toList = .ok n ∧
    normalizeUrl webUrllib n.canonical = .ok again ∧ again.path = "/A".toList ∧
      n.path = "/%41".toList ∧
    again ≠ n := by
  refine ⟨{ scheme := "http".toList, host := "h".toList, port := none, path := "/%41".toList,
            query := [] },
    { scheme := "http".toList, host := "h".toList, port := none, path := "/A".toList,
      query := [] }, ?_⟩
  decide +kernel

end AssetStore
