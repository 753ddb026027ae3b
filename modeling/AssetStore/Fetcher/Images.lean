import AssetStore.Fetcher
import AssetStore.Lib.Decimal

/-! The image rule: which requests of the IIIF Image API are cacheable, and the alias tail of each.
The tail names the request in a canonical form, so it reads back as itself, and two requests have
one tail exactly when their canonical forms agree in every part. -/

namespace AssetStore

open Lib

/-! ### `int` and `_normalize_rotation` -/

/-- The zeros of the decimal digits of Unicode 15. -/
def decimalZeros : List Nat :=
  [0x30, 0x660, 0x6F0, 0x7C0, 0x966, 0x9E6, 0xA66, 0xAE6, 0xB66, 0xBE6, 0xC66, 0xCE6, 0xD66, 0xDE6,
   0xE50, 0xED0, 0xF20, 0x1040, 0x1090, 0x17E0, 0x1810, 0x1946, 0x19D0, 0x1A80, 0x1A90,
     0x1B50, 0x1BB0,
   0x1C40, 0x1C50, 0xA620, 0xA8D0, 0xA900, 0xA9D0, 0xA9F0, 0xAA50, 0xABF0, 0xFF10, 0x104A0, 0x10D30,
   0x11066, 0x110F0, 0x11136, 0x111D0, 0x112F0, 0x11450, 0x114D0, 0x11650, 0x116C0,
     0x11730, 0x118E0,
   0x11950, 0x11C50, 0x11D50, 0x11DA0, 0x11F50, 0x16A60, 0x16AC0, 0x16B50, 0x1D7CE,
     0x1D7D8, 0x1D7E2,
   0x1D7EC, 0x1D7F6, 0x1E140, 0x1E2F0, 0x1E4F0, 0x1E950, 0x1FBF0]

/-- The ASCII character that `int` reads for a character: whitespace as a blank, a decimal digit as
its digit, and any other character beyond ASCII as one that no number contains. -/
def toDecimalAscii (c : Char) : Char :=
  if c.toNat < 127 then c
  else if isSpace c then ' '
  else
    match decimalZeros.find? fun start => start ≤ c.toNat && c.toNat < start + 10 with
    | some start => Nat.digitChar (c.toNat - start)
    | none => '?'

/-- `sys.get_int_max_str_digits()`. -/
def maxStrDigits : Nat := 4300

/-- `int(s)`, which raises for too many digits. -/
def pyInt (s : Text) : Option Int := readInt maxStrDigits (s.map toDecimalAscii)

/-- `_normalize_rotation`. -/
def normalizeRotation (rotation : Text) : Text :=
  match rotation with
  | '!' :: body => ((pyInt body).map fun value => '!' :: showInt value).getD rotation
  | body => ((pyInt body).map showInt).getD rotation

/-! ### `IIIFImageRule` -/

structure IIIFImageRule where
  host : Text
  mirrorId : Text
  pathPrefix : List Text := ["iiif".toList]

/-- The parts of a request of the Image API. -/
structure ImageRequest where
  resourceId : Text
  region : Text
  size : Text
  rotation : Text
  quality : Text
  format : Text
  deriving DecidableEq

/-- `s.rpartition(".")`: the parts around the last dot. -/
def rpartitionDot (s : Text) : Option (Text × Text) :=
  if '.' ∈ s then some ((s.rdropWhile (· != '.')).dropLast, s.rtakeWhile (· != '.')) else none

/-- The request that the path of a URL makes. -/
def IIIFImageRule.request (rule : IIIFImageRule) (url : NormalizedUrl) : Option ImageRequest :=
  if hostMatches url rule.host = false then none
  else if url.pathSegments.take rule.pathPrefix.length ≠ rule.pathPrefix then none
  else
    match (url.pathSegments.drop rule.pathPrefix.length).reverse with
    | qualityFormat :: rotation :: size :: region :: identifier =>
      -- fewer than five segments, or none of them in the identifier
      if identifier = [] then none
      else do
        let (quality, format) ← rpartitionDot qualityFormat
        let resourceId := ['/'].intercalate identifier.reverse
        if resourceId = [] then none
        else return { resourceId, region, size, rotation, quality, format }
    | _ => none

/-- `_IIIF_QUALITY_ALIASES.get(quality, quality)`. -/
def qualityAlias (quality : Text) : Text :=
  if quality = "native".toList then "default".toList else quality

def ImageRequest.canonical (lib : Urllib) (r : ImageRequest) : ImageRequest :=
  { resourceId := r.resourceId, region := lib.lower r.region, size := lib.lower r.size
    rotation := normalizeRotation r.rotation, quality := qualityAlias (lib.lower r.quality)
    format := lib.lower r.format }

def ImageRequest.tail (r : ImageRequest) : Text :=
  "iiif".toList ++ '/' :: r.resourceId ++ '/' :: r.region ++ '/' :: r.size ++ '/' :: r.rotation ++
    '/' :: r.quality ++ '.' :: r.format

/-- `IIIFImageRule.match`. -/
def IIIFImageRule.matchUrl (lib : Urllib) (rule : IIIFImageRule) : CacheRule := fun url =>
  (rule.request url).map fun r => { mirrorId := rule.mirrorId, aliases := [(r.canonical lib).tail] }

/-! ### Rotations -/

section Rotations

variable {rotation : Text} {value : Int}

theorem toDecimalAscii_showInt : (showInt value).map toDecimalAscii = showInt value := by
  refine (List.map_congr_left (g := id) fun c hc => ?_).trans (List.map_id _)
  have hascii : c.toNat < 127 := by
    rcases mem_toString hc with rfl | hdigit
    · decide
    · simp only [Char.isDigit, Bool.and_eq_true, decide_eq_true_eq] at hdigit
      have hle : c.toNat ≤ 57 := hdigit.2
      omega
  rw [toDecimalAscii, if_pos hascii, id]

/-- A number that `int` has read is read again from what `str` writes. -/
theorem pyInt_showInt (h : pyInt rotation = some value) : pyInt (showInt value) = some value := by
  rw [pyInt, toDecimalAscii_showInt]
  exact readInt_toString (by decide) (readInt_lt h)

/-- The rotation without a mark, as its number. -/
theorem normalizeRotation_plain (hmark : ∀ body, rotation ≠ '!' :: body) :
    normalizeRotation rotation = ((pyInt rotation).map showInt).getD rotation := by
  unfold normalizeRotation
  split
  · exact absurd rfl (hmark _)
  · rfl

theorem showInt_no_mark (body : Text) : showInt value ≠ '!' :: body := by
  intro heq
  have hmem : '!' ∈ showInt value := by simp [heq]
  rcases mem_toString hmem with h | h
  · exact absurd h (by decide)
  · exact absurd h (by decide)

theorem normalizeRotation_idem (rotation : Text) :
    normalizeRotation (normalizeRotation rotation) = normalizeRotation rotation := by
  by_cases hmark : ∃ body, rotation = '!' :: body
  · obtain ⟨body, rfl⟩ := hmark
    cases hvalue : pyInt body with
    | none => simp [normalizeRotation, hvalue]
    | some value => simp [normalizeRotation, hvalue, pyInt_showInt hvalue]
  · rw [not_exists] at hmark
    rw [normalizeRotation_plain hmark]
    cases hvalue : pyInt rotation with
    | none => simp [normalizeRotation_plain hmark, hvalue]
    | some value => simp [normalizeRotation_plain showInt_no_mark, pyInt_showInt hvalue]

/-- A canonical rotation is a segment when the rotation is. -/
theorem normalizeRotation_segment (hne : rotation ≠ []) (hslash : '/' ∉ rotation) :
    normalizeRotation rotation ≠ [] ∧ '/' ∉ normalizeRotation rotation := by
  have hshown : ∀ value, showInt value ≠ [] ∧ '/' ∉ showInt value := by
    intro value
    refine ⟨toString_ne_nil, fun hmem => ?_⟩
    rcases mem_toString hmem with h | h
    · exact absurd h (by decide)
    · exact absurd h (by decide)
  by_cases hmark : ∃ body, rotation = '!' :: body
  · obtain ⟨body, rfl⟩ := hmark
    cases hvalue : pyInt body with
    | none => simpa [normalizeRotation, hvalue] using hslash
    | some value => simpa [normalizeRotation, hvalue] using (hshown value).2
  · rw [not_exists] at hmark
    rw [normalizeRotation_plain hmark]
    cases hvalue : pyInt rotation with
    | none => exact ⟨hne, hslash⟩
    | some value => exact hshown value

end Rotations

/-! ### Requests -/

/-- The parts of a request, as segments of a path give them. -/
structure ImageRequest.WellFormed (r : ImageRequest) : Prop where
  resource : ∀ segment ∈ r.resourceId.splitOn '/', segment ≠ []
  region : r.region ≠ [] ∧ '/' ∉ r.region
  size : r.size ≠ [] ∧ '/' ∉ r.size
  rotation : r.rotation ≠ [] ∧ '/' ∉ r.rotation
  quality : '/' ∉ r.quality
  format : '/' ∉ r.format ∧ '.' ∉ r.format

/-- The segments of a request. -/
def ImageRequest.segments (r : ImageRequest) : List Text :=
  r.resourceId.splitOn '/' ++ [r.region, r.size, r.rotation, r.quality ++ '.' :: r.format]

section Requests

variable {rule : IIIFImageRule} {url : NormalizedUrl} {r r' : ImageRequest}
  {quality format s : Text}

theorem rpartitionDot_append (h : '.' ∉ format) :
    rpartitionDot (quality ++ '.' :: format) = some (quality, format) := by
  have hall : ∀ c ∈ format, (c != '.') = true := fun c hc => by
    have hne : c ≠ '.' := fun heq => h (heq ▸ hc)
    simpa using hne
  have hgone : format.rdropWhile (· != '.') = [] := List.rdropWhile_eq_nil_iff.mpr hall
  have hfront : (quality ++ '.' :: format).rdropWhile (· != '.') = quality ++ ['.'] := by
    rw [show quality ++ '.' :: format = (quality ++ ['.']) ++ format by simp, rdropWhile_append,
      if_pos hgone, List.rdropWhile_concat_neg _ _ _ (by simp)]
  have hback : (quality ++ '.' :: format).rtakeWhile (· != '.') = format := by
    rw [List.rtakeWhile, List.reverse_append, List.reverse_cons, List.append_assoc,
      List.takeWhile_append_of_pos fun c hc => hall c (List.mem_reverse.mp hc)]
    simp
  rw [rpartitionDot, if_pos (by simp), hfront, hback, List.dropLast_concat]

theorem rpartitionDot_eq_some (h : rpartitionDot s = some (quality, format)) :
    s = quality ++ '.' :: format ∧ '.' ∉ format := by
  have hdot : '.' ∈ s := by
    by_contra hno
    rw [rpartitionDot, if_neg hno] at h
    cases h
  obtain ⟨back, front, heq, hno⟩ := List.eq_append_cons_of_mem (List.mem_reverse.mpr hdot)
  have hs : s = front.reverse ++ '.' :: back.reverse := by
    rw [← List.reverse_reverse s, heq]
    simp
  have hno' : '.' ∉ back.reverse := by simpa using hno
  rw [hs, rpartitionDot_append hno', Option.some.injEq, Prod.mk.injEq] at h
  obtain ⟨rfl, rfl⟩ := h
  exact ⟨hs, hno'⟩

theorem mem_pathSegments {segment : Text} (h : segment ∈ url.pathSegments) :
    segment ≠ [] ∧ '/' ∉ segment := by
  obtain ⟨hmem, hne⟩ := List.mem_filter.mp h
  exact ⟨by simpa using hne, not_mem_of_mem_splitOn hmem⟩

/-- The request read off the segments behind the prefix. -/
theorem request_of_segments {qualityFormat rotation size region : Text} {identifier : List Text}
    (hsegments : ∀ s ∈ identifier.reverse ++ [region, size, rotation, qualityFormat],
      s ≠ [] ∧ '/' ∉ s)
    (hidentifier : identifier ≠ []) (hpartition : rpartitionDot qualityFormat =
      some (quality, format)) :
    let r : ImageRequest :=
      { resourceId := ['/'].intercalate identifier.reverse, region, size, rotation,
        quality, format }
    r.WellFormed ∧ r.segments = identifier.reverse ++ [region, size, rotation, qualityFormat] := by
  obtain ⟨rfl, hdot⟩ := rpartitionDot_eq_some hpartition
  have hsplit : (['/'].intercalate identifier.reverse).splitOn '/' = identifier.reverse :=
    List.splitOn_intercalate '/' (fun s hs => (hsegments s (List.mem_append_left _ hs)).2)
      (by simpa using hidentifier)
  have hlast : '/' ∉ quality ++ '.' :: format := (hsegments _ (by simp)).2
  simp only [List.mem_append, List.mem_cons, not_or] at hlast
  refine ⟨⟨?_, hsegments region (by simp), hsegments size (by simp), hsegments rotation (by simp),
    hlast.1, hlast.2.2, hdot⟩, ?_⟩
  · rw [hsplit]
    exact fun s hs => (hsegments s (List.mem_append_left _ hs)).1
  · simp only [ImageRequest.segments, hsplit]

/-- A URL makes a request when its segments are the prefix of the rule and those of the request. -/
theorem request_eq_some : rule.request url = some r ↔
    hostMatches url rule.host = true ∧ r.WellFormed ∧
      url.pathSegments = rule.pathPrefix ++ r.segments := by
  constructor
  · intro h
    simp only [IIIFImageRule.request] at h
    split at h
    · cases h
    · rename_i hhost
      split at h
      · cases h
      · rename_i hprefix
        split at h
        · rename_i qualityFormat rotation size region identifier hreverse
          split at h
          · cases h
          · rename_i hidentifier
            simp only [Option.bind_eq_bind, Option.bind_eq_some_iff] at h
            obtain ⟨⟨quality, format⟩, hpartition, h⟩ := h
            split at h
            · cases h
            · cases h
              have hdrop : url.pathSegments.drop rule.pathPrefix.length =
                  identifier.reverse ++ [region, size, rotation, qualityFormat] := by
                rw [← List.reverse_reverse (url.pathSegments.drop _), hreverse]
                simp
              have hall : url.pathSegments =
                  rule.pathPrefix ++ (identifier.reverse ++
                    [region, size, rotation, qualityFormat]) := by
                have hcut := List.take_append_drop rule.pathPrefix.length url.pathSegments
                rw [not_not.mp hprefix, hdrop] at hcut
                exact hcut.symm
              obtain ⟨hwell, hsegments⟩ := request_of_segments (fun s hs => @mem_pathSegments url s
                (by rw [hall]; exact List.mem_append_right _ hs)) hidentifier hpartition
              exact ⟨by simpa using hhost, hwell, by rw [hsegments, hall]⟩
        · cases h
  · rintro ⟨hhost, hwell, hsegments⟩
    have hresource : r.resourceId ≠ [] := fun hnil => hwell.resource [] (by simp [hnil]) rfl
    have hreverse : (url.pathSegments.drop rule.pathPrefix.length).reverse =
        (r.quality ++ '.' :: r.format) :: r.rotation :: r.size :: r.region ::
          (r.resourceId.splitOn '/').reverse := by
      rw [hsegments, List.drop_left, ImageRequest.segments]
      simp
    have hidentifier : (r.resourceId.splitOn '/').reverse ≠ [] := by simp [List.splitOn_ne_nil]
    have hprefix : url.pathSegments.take rule.pathPrefix.length = rule.pathPrefix := by
      rw [hsegments, List.take_left]
    have hjoin : ['/'].intercalate (r.resourceId.splitOn '/').reverse.reverse = r.resourceId := by
      rw [List.reverse_reverse, List.intercalate_splitOn]
    simp only [IIIFImageRule.request, hhost, hprefix, hreverse, hidentifier,
      rpartitionDot_append hwell.format.2, hjoin, hresource]
    simp

/-- The segments of an alias tail are those of its request, under `iiif`. -/
theorem splitOn_tail (h : r.WellFormed) : r.tail.splitOn '/' = "iiif".toList :: r.segments := by
  have hlast : '/' ∉ r.quality ++ '.' :: r.format := by
    simp only [List.mem_append, List.mem_cons, not_or]
    exact ⟨h.quality, by decide, h.format.1⟩
  have htail : r.tail = "iiif".toList ++ '/' :: (r.resourceId ++ '/' :: (r.region ++ '/' ::
      (r.size ++ '/' :: (r.rotation ++ '/' :: (r.quality ++ '.' :: r.format))))) := by
    unfold ImageRequest.tail
    generalize "iiif".toList = root
    simp only [List.append_assoc, List.cons_append]
  have hroot : "iiif".toList.splitOn '/' = ["iiif".toList] := by decide
  rw [htail, List.splitOn_append_cons_self, hroot, List.splitOn_append_cons_self,
    List.splitOn_append_cons_self, List.splitOn_append_cons_self, List.splitOn_append_cons_self,
    List.splitOn_eq_singleton h.region.2, List.splitOn_eq_singleton h.size.2,
    List.splitOn_eq_singleton h.rotation.2, List.splitOn_eq_singleton hlast]
  simp only [ImageRequest.segments, List.cons_append, List.nil_append]

/-- Requests are told apart by their tails. -/
theorem tail_inj (h : r.WellFormed) (h' : r'.WellFormed) (heq : r.tail = r'.tail) : r = r' := by
  have hsegments : r.segments = r'.segments := by
    have hsplit := congrArg (fun t => t.splitOn '/') heq
    simp only [splitOn_tail h, splitOn_tail h', List.cons.injEq, true_and] at hsplit
    exact hsplit
  obtain ⟨hidentifier, hparts⟩ := List.append_inj' hsegments (by simp)
  simp only [List.cons.injEq, and_true] at hparts
  obtain ⟨hregion, hsize, hrotation, hlast⟩ := hparts
  have hresource : r.resourceId = r'.resourceId := by
    rw [← @List.intercalate_splitOn _ r.resourceId _ _ '/', hidentifier, List.intercalate_splitOn]
  have hpartition : rpartitionDot (r.quality ++ '.' :: r.format) = some (r.quality, r.format) :=
    rpartitionDot_append h.format.2
  rw [hlast, rpartitionDot_append h'.format.2, Option.some.injEq, Prod.mk.injEq] at hpartition
  cases r
  cases r'
  simp_all

end Requests

/-! ### Canonical requests -/

/-- What `str.lower` promises. -/
structure Urllib.LowerLaws (lib : Urllib) : Prop where
  idem : ∀ s, lib.lower (lib.lower s) = lib.lower s
  ascii : ∀ s, (∀ c ∈ s, c.toNat < 128) → lib.lower s = s.map Char.toLower
  slash : ∀ s, '/' ∉ s → '/' ∉ lib.lower s
  dot : ∀ s, '.' ∉ s → '.' ∉ lib.lower s
  nonempty : ∀ s, s ≠ [] → lib.lower s ≠ []

section Canonical

variable {lib : Urllib} {rule : IIIFImageRule} {url back : NormalizedUrl} {r : ImageRequest}
  {m : RuleMatch}

theorem qualityAlias_idem (laws : lib.LowerLaws) (quality : Text) :
    qualityAlias (lib.lower (qualityAlias (lib.lower quality))) =
      qualityAlias (lib.lower quality) := by
  by_cases hnative : lib.lower quality = "native".toList
  · have hdefault : lib.lower "default".toList = "default".toList :=
      (laws.ascii _ (by decide)).trans (by decide)
    rw [hnative, show qualityAlias "native".toList = "default".toList from rfl, hdefault]
    decide
  · have hsame : qualityAlias (lib.lower quality) = lib.lower quality := if_neg hnative
    rw [hsame, laws.idem, hsame]

theorem canonical_idem (laws : lib.LowerLaws) :
    (r.canonical lib).canonical lib = r.canonical lib := by
  simp only [ImageRequest.canonical, laws.idem, normalizeRotation_idem, qualityAlias_idem laws]

theorem canonical_wellFormed (laws : lib.LowerLaws) (h : r.WellFormed) :
    (r.canonical lib).WellFormed where
  resource := h.resource
  region := ⟨laws.nonempty _ h.region.1, laws.slash _ h.region.2⟩
  size := ⟨laws.nonempty _ h.size.1, laws.slash _ h.size.2⟩
  rotation := normalizeRotation_segment h.rotation.1 h.rotation.2
  quality := by
    show '/' ∉ qualityAlias (lib.lower r.quality)
    unfold qualityAlias
    split
    · decide
    · exact laws.slash _ h.quality
  format := ⟨laws.slash _ h.format.1, laws.dot _ h.format.2⟩

/-- A URL whose path is the tail of a request makes the request again. -/
theorem request_of_tail (h : r.WellFormed) (hhost : hostMatches back rule.host = true)
    (hpath : back.path = '/' :: r.tail) :
    IIIFImageRule.request { rule with pathPrefix := ["iiif".toList] } back = some r := by
  have hsegments : back.pathSegments = "iiif".toList :: r.segments := by
    have hcut : back.path.splitOn '/' = [] :: "iiif".toList :: r.segments := by
      rw [hpath, show '/' :: r.tail = [] ++ '/' :: r.tail from rfl, List.splitOn_append_cons_self,
        splitOn_tail h]
      rfl
    rw [NormalizedUrl.pathSegments, hcut]
    refine (List.filter_cons_of_neg (by simp)).trans (List.filter_eq_self.mpr fun s hs => ?_)
    have hne : s ≠ [] := by
      simp only [ImageRequest.segments, List.mem_cons, List.mem_append, List.not_mem_nil,
        or_false] at hs
      rcases hs with rfl | hs | rfl | rfl | rfl | rfl
      · decide
      · exact h.resource s hs
      · exact h.region.1
      · exact h.size.1
      · exact h.rotation.1
      · simp
    simpa using hne
  exact request_eq_some.mpr ⟨hhost, h, hsegments⟩

theorem matchUrl_eq_some : rule.matchUrl lib url = some m ↔
    ∃ r, rule.request url = some r ∧
      m = { mirrorId := rule.mirrorId, aliases := [(r.canonical lib).tail] } := by
  simp only [IIIFImageRule.matchUrl, Option.map_eq_some_iff]
  exact exists_congr fun r => and_congr_right fun _ => eq_comm

end Canonical

/-- The alias tail of a match reads back as itself, and tells apart exactly the requests whose parts
differ in canonical form. -/
theorem iiif_canonical {lib : Urllib} (laws : lib.LowerLaws) (rule : IIIFImageRule) :
    (∀ url m, rule.matchUrl lib url = some m → ∃ tail, m.aliases = [tail] ∧
      ∀ back : NormalizedUrl, back.host = url.host → back.path = '/' :: tail →
        IIIFImageRule.matchUrl lib { rule with pathPrefix := ["iiif".toList] } back = some m) ∧
    ∀ u v mu mv, rule.matchUrl lib u = some mu → rule.matchUrl lib v = some mv →
      ∃ ru rv, rule.request u = some ru ∧ rule.request v = some rv ∧
        (mu.aliases = mv.aliases ↔ ru.resourceId = rv.resourceId ∧
          lib.lower ru.region = lib.lower rv.region ∧ lib.lower ru.size = lib.lower rv.size ∧
          normalizeRotation ru.rotation = normalizeRotation rv.rotation ∧
          qualityAlias (lib.lower ru.quality) = qualityAlias (lib.lower rv.quality) ∧
          lib.lower ru.format = lib.lower rv.format) := by
  constructor
  · intro url m hm
    obtain ⟨r, hrequest, rfl⟩ := matchUrl_eq_some.mp hm
    obtain ⟨hhost, hwell, -⟩ := request_eq_some.mp hrequest
    refine ⟨_, rfl, fun back hback hpath => ?_⟩
    have hhost' : hostMatches back rule.host = true := by
      unfold hostMatches at hhost ⊢
      rwa [hback]
    refine matchUrl_eq_some.mpr
      ⟨r.canonical lib, request_of_tail (canonical_wellFormed laws hwell) hhost' hpath, ?_⟩
    rw [canonical_idem laws]
  · intro u v mu mv hmu hmv
    obtain ⟨ru, hru, rfl⟩ := matchUrl_eq_some.mp hmu
    obtain ⟨rv, hrv, rfl⟩ := matchUrl_eq_some.mp hmv
    obtain ⟨-, hwellu, -⟩ := request_eq_some.mp hru
    obtain ⟨-, hwellv, -⟩ := request_eq_some.mp hrv
    refine ⟨ru, rv, hru, hrv, ?_⟩
    have htails : [(ru.canonical lib).tail] = [(rv.canonical lib).tail] ↔
        ru.canonical lib = rv.canonical lib := by
      rw [List.cons.injEq, and_iff_left rfl]
      exact ⟨tail_inj (canonical_wellFormed laws hwellu) (canonical_wellFormed laws hwellv),
        fun heq => heq ▸ rfl⟩
    rw [htails]
    simp only [ImageRequest.canonical, ImageRequest.mk.injEq]

/-- `lower` on ASCII text. -/
def asciiUrllib : Urllib where
  urlsplit _ := .error .valueError
  unquote path := path
  lower := List.map Char.toLower

theorem toLower_cases (c : Char) :
    c.toLower = c ∨ 65 ≤ c.toNat ∧ c.toNat ≤ 90 ∧ c.toLower.toNat = c.toNat + 32 := by
  unfold Char.toLower
  split
  · rename_i hupper
    have hlow : 65 ≤ c.toNat := hupper.1
    have hhigh : c.toNat ≤ 90 := hupper.2
    refine .inr ⟨hlow, hhigh, ?_⟩
    show (c.val + 32).toNat = c.val.toNat + 32
    rw [UInt32.toNat_add]
    have hval : c.val.toNat ≤ 90 := hhigh
    show (c.val.toNat + 32) % 4294967296 = c.val.toNat + 32
    omega
  · exact .inl rfl

/-- Only an upper case letter is lowered, to a letter beyond it. -/
theorem toLower_eq_low {c d : Char} (hd : d.toNat < 97) (h : c.toLower = d) : c = d := by
  rcases toLower_cases c with hsame | ⟨hlow, -, hlowered⟩
  · rw [← hsame, h]
  · rw [h] at hlowered
    omega

theorem asciiUrllib_laws : asciiUrllib.LowerLaws where
  idem s := by
    show (s.map Char.toLower).map Char.toLower = s.map Char.toLower
    rw [List.map_map]
    refine List.map_congr_left fun c _ => ?_
    rcases toLower_cases c with hsame | ⟨hlow, -, hlowered⟩
    · simp only [Function.comp_apply, hsame]
    · rcases toLower_cases c.toLower with hsame' | ⟨-, hhigh, -⟩
      · exact hsame'
      · omega
  ascii _ _ := rfl
  slash s h hmem := by
    obtain ⟨c, hc, heq⟩ := List.mem_map.mp hmem
    exact h (toLower_eq_low (by decide) heq ▸ hc)
  dot s h hmem := by
    obtain ⟨c, hc, heq⟩ := List.mem_map.mp hmem
    exact h (toLower_eq_low (by decide) heq ▸ hc)
  nonempty s h := by simpa [asciiUrllib] using h

/-- An image of the host `host`, mirrored under `m`. -/
def imageRule : IIIFImageRule := { host := "host".toList, mirrorId := "m".toList }

def imageAt (path : Text) : NormalizedUrl :=
  { scheme := "https".toList, host := "host".toList, port := none, path, query := [] }

/-- Two spellings of one variant have one tail, which reads back. -/
theorem iiif_canonical_spellings : ∃ mu mv,
    imageRule.matchUrl asciiUrllib (imageAt "/iiif/a/b/Full/max/!000/native.JPG".toList) = some mu ∧
      imageRule.matchUrl asciiUrllib (imageAt "/iiif/a/b/full/MAX/!+0 /Default.jpg".toList) =
        some mv ∧
      mu.aliases = mv.aliases ∧
      IIIFImageRule.matchUrl asciiUrllib { imageRule with pathPrefix := ["iiif".toList] }
        (imageAt "/iiif/a/b/full/max/!0/default.jpg".toList) = some mu := by
  obtain ⟨hback, hsame⟩ := iiif_canonical asciiUrllib_laws imageRule
  have hru : imageRule.request (imageAt "/iiif/a/b/Full/max/!000/native.JPG".toList) =
      some ⟨"a/b".toList, "Full".toList, "max".toList, "!000".toList, "native".toList,
        "JPG".toList⟩ := by
    decide
  have hrv : imageRule.request (imageAt "/iiif/a/b/full/MAX/!+0 /Default.jpg".toList) =
      some ⟨"a/b".toList, "full".toList, "MAX".toList, "!+0 ".toList, "Default".toList,
        "jpg".toList⟩ := by
    decide
  have hmu : imageRule.matchUrl asciiUrllib _ = some _ := matchUrl_eq_some.mpr ⟨_, hru, rfl⟩
  have hmv : imageRule.matchUrl asciiUrllib _ = some _ := matchUrl_eq_some.mpr ⟨_, hrv, rfl⟩
  obtain ⟨ru, rv, hru', hrv', hiff⟩ := hsame _ _ _ _ hmu hmv
  obtain rfl := Option.some.inj (hru'.symm.trans hru)
  obtain rfl := Option.some.inj (hrv'.symm.trans hrv)
  obtain ⟨tail, htail, hread⟩ := hback _ _ hmu
  have hpath : (imageAt "/iiif/a/b/full/max/!0/default.jpg".toList).path = '/' :: tail := by
    rw [← (List.cons.inj htail).1]
    decide
  have hhost : ∀ path other, (imageAt path).host = (imageAt other).host := fun _ _ => rfl
  have hread' := hread (imageAt "/iiif/a/b/full/max/!0/default.jpg".toList) (hhost _ _) hpath
  have hsame' := hiff.mpr (by decide)
  exact ⟨_, _, hmu, hmv, hsame', hread'⟩

end AssetStore
