import AssetStore.Fetcher.Urls
import AssetStore.Lib.Patterns

/-! The Gallica policy: which URLs of the two image hosts are approved, the URL that is fetched for
each and its alias. The full image of the legacy host is fetched from the current endpoint, so its
two spellings share an alias; apart from that an alias names one origin URL. -/

namespace AssetStore

open Lib

/-! ### `pilot_policy.py` -/

/-- `HOST`. -/
def legacyHost : Text := "gallica.bnf.fr".toList

/-- `PARTITION`. -/
def pilotPartition : Text := "gallica-pilot".toList

/-- `V3_HOST`. -/
def v3Host : Text := "openapi.bnf.fr".toList

def digits : Text := "0123456789".toList

def alphanumerics : Text := "ABCDEFGHIJKLMNOPQRSTUVWXYZabcdefghijklmnopqrstuvwxyz0123456789".toList

/-- `_NUMBER`. -/
def numberPattern : RegularExpression Char :=
  many (oneOf digits) * optional (lit ".".toList * many (oneOf digits))

/-- `_REGION`. -/
def regionPattern : RegularExpression Char :=
  lit "full".toList + lit "square".toList +
    optional (lit "pct:".toList) * (numberPattern * (lit ",".toList * (numberPattern *
      (lit ",".toList * (numberPattern * (lit ",".toList * numberPattern))))))

/-- `_SIZE`. -/
def sizePattern : RegularExpression Char :=
  lit "full".toList + lit "max".toList + lit "pct:".toList * numberPattern +
    optional (lit "!".toList) * (many (oneOf digits) * (lit ",".toList * (oneOf digits).star)) +
    optional (lit "!".toList) * ((oneOf digits).star * (lit ",".toList * many (oneOf digits)))

/-- The page of a document. -/
def folioPattern : RegularExpression Char :=
  lit "f".toList * (oneOf "123456789".toList * (oneOf digits).star)

def rotationPattern : RegularExpression Char := optional (lit "!".toList) * numberPattern

def filePattern (formats : List Text) : RegularExpression Char :=
  anyOf ["native".toList, "default".toList, "color".toList, "gray".toList, "bitonal".toList] *
    (lit ".".toList * anyOf formats)

/-- The image paths below a root, in some formats. -/
def renditions (root : Text) (formats : List Text) : RegularExpression Char :=
  lit root * joined '/' [many (oneOf alphanumerics), folioPattern, regionPattern, sizePattern,
    rotationPattern, filePattern formats]

/-- `_IMAGE`. -/
def imagePattern : RegularExpression Char :=
  renditions "/iiif/ark:/12148/".toList ["jpg".toList, "jpeg".toList, "tif".toList, "tiff".toList]

/-- `_V3_IMAGE`. -/
def v3ImagePattern : RegularExpression Char :=
  renditions "/iiif/image/v3/ark:/12148/".toList
    ["jpg".toList, "jpeg".toList, "tif".toList, "tiff".toList, "webp".toList]

/-- The group that `_LEGACY_FULL` captures. -/
def arkPattern : RegularExpression Char :=
  lit "ark:/12148/".toList * (many (oneOf alphanumerics) * (lit "/".toList * folioPattern))

def legacyFront : Text := "/iiif/".toList

def legacyEnd : Text := "/full/full/0/native.jpg".toList

/-- `_LEGACY_FULL`. -/
def legacyFullPattern : RegularExpression Char := lit legacyFront * (arkPattern * lit legacyEnd)

/-- `_POLICIES`. -/
def policies : List (Text × RegularExpression Char) :=
  [(legacyHost, imagePattern), (v3Host, v3ImagePattern)]

structure PilotTarget where
  originUrl : Text
  path : Text
  host : Text := legacyHost
  deriving DecidableEq

/-- The captured group of the path of a full legacy image: what is between the fixed ends. -/
def legacyArk (path : Text) : Option Text :=
  if legacyFullPattern.rmatch path = true then
    some ((path.drop legacyFront.length).take (path.length - legacyFront.length - legacyEnd.length))
  else none

/-- `fetch_url`. -/
def PilotTarget.fetchUrl (t : PilotTarget) : Text :=
  match if t.host = legacyHost then legacyArk t.path else none with
  | some ark =>
    "https://".toList ++ v3Host ++ "/iiif/image/v3/".toList ++ ark ++
      "/full/max/0/default.jpg".toList
  | none => t.originUrl

/-- `relative_alias`. -/
def PilotTarget.relativeAlias (checks : NetlocChecks) (t : PilotTarget) :
    Except FetchError Text := do
  if t.fetchUrl ≠ t.originUrl then
    let canonical ← urlsplit checks t.fetchUrl
    return pilotPartition ++ '/' :: v3Host ++ '/' :: canonical.path.dropWhile isSlash
  else
    let host := if t.host = legacyHost then [] else t.host ++ ['/']
    return pilotPartition ++ '/' :: host ++ t.path.dropWhile isSlash

/-- What the pilot may raise: the errors of `errors.py` and `client.py`, and those of the
transport. -/
inductive PilotError
  | denied (message : String)
  | fetch (e : FetchError)
  | upstream (message : String)
  | cacheMiss (message : String)
  | cacheBackend (status : Nat) (retryAfter : Option Text)
  | assetStore (message : String) (status : Nat) (retryAfter : Option Text)
  | httpError
  deriving DecidableEq

def outsidePolicy : PilotError := .denied "URL is outside the approved Gallica image policy"

/-- `re.search(r"%(?![0-9A-Fa-f]{2})", path)`. -/
def hasStrayPercent : Text → Bool
  | [] => false
  | c :: rest => (c == '%' && (leadingByte rest).isNone) || hasStrayPercent rest

/-- `GallicaPolicy.require`. -/
def GallicaPolicy.require (checks : NetlocChecks) (raw : Text) : Except PilotError PilotTarget := do
  raiseIf (raw = [] ∨ 2048 < raw.length ∨ ¬raw.all (fun c => 33 ≤ c.toNat && c.toNat ≤ 126) = true)
    outsidePolicy
  match urlsplit checks raw with
  | .error _ => .error outsidePolicy
  | .ok parts =>
    let host := parts.netloc.map Char.toLower
    match policies.lookup host with
    | none => .error outsidePolicy
    | some pattern =>
      raiseIf (parts.scheme ≠ "https".toList ∨ '?' ∈ raw ∨ '#' ∈ raw) outsidePolicy
      raiseIf (hasStrayPercent parts.path = true) (.denied "invalid path encoding")
      raiseIf (∃ b ∈ escapedBytes parts.path, Char.ofNat b.toNat ∈ "/\\%?#".toList)
        (.denied "ambiguous path encoding")
      let path := unquote parts.path
      raiseIf (pattern.rmatch path = false) outsidePolicy
      return { originUrl := "https://".toList ++ host ++ path, path, host }

/-! ### Approved paths -/

/-- A host and a path that its policy approves. -/
def Approved (host path : Text) : Prop := ∃ P, (host, P) ∈ policies ∧ path ∈ P.matches'

/-- A pattern of one segment of an alias path. -/
structure SegmentPattern (P : RegularExpression Char) : Prop where
  nonempty : P.matchEpsilon = false
  slash : '/' ∉ letters P
  dot : '.' ∉ starts P

section Paths

variable {root path ark x host : Text} {formats : List Text} {P : RegularExpression Char}
  {Ps : List (RegularExpression Char)} {parts : List Text}

theorem SegmentPattern.good (hP : SegmentPattern P) (hx : x ∈ P.matches') :
    '/' ∉ x ∧ ¬BadSegment x := by
  refine ⟨fun hmem => hP.slash (mem_letters hx hmem), ?_⟩
  rintro (hnil | hone | htwo)
  · exact ne_nil_of_matches hP.nonempty hx hnil
  · subst hone
    exact hP.dot (mem_starts hx)
  · subst htwo
    exact hP.dot (mem_starts hx)

theorem good_of_forall₂ (hPs : ∀ P ∈ Ps, SegmentPattern P)
    (h : List.Forall₂ (fun u P => u ∈ P.matches') parts Ps) :
    ∀ s ∈ parts, '/' ∉ s ∧ ¬BadSegment s := by
  induction h with
  | nil => simp
  | cons hmatch _ ih =>
    intro s hs
    rcases List.mem_cons.mp hs with rfl | hs
    · exact (hPs _ List.mem_cons_self).good hmatch
    · exact ih (fun P hP => hPs P (List.mem_cons_of_mem _ hP)) s hs

theorem segments_of_renditions (first : List Text) (hfirst : first ≠ [])
    (hroot : root = '/' :: ['/'].intercalate first ++ ['/'])
    (hfile : SegmentPattern (filePattern formats))
    (h : path ∈ (renditions root formats).matches') :
    ∃ below, path = '/' :: ['/'].intercalate (first ++ below) ∧ ∀ s ∈ below, '/' ∉ s ∧
      ¬BadSegment s := by
  obtain ⟨_, hjoined, rfl⟩ := mem_lit_mul.mp h
  obtain ⟨below, hbelow, rfl⟩ := mem_joined.mp hjoined
  have hne : below ≠ [] := by
    rintro rfl
    cases hbelow
  refine ⟨below, ?_, good_of_forall₂ ?_ hbelow⟩
  · rw [intercalate_append hfirst hne, hroot]
    simp
  · intro P hP
    simp only [List.mem_cons, List.not_mem_nil, or_false] at hP
    rcases hP with rfl | rfl | rfl | rfl | rfl | rfl
    · exact ⟨by decide, by decide, by decide⟩
    · exact ⟨by decide, by decide, by decide⟩
    · exact ⟨by decide, by decide, by decide⟩
    · exact ⟨by decide, by decide, by decide⟩
    · exact ⟨by decide, by decide, by decide⟩
    · exact hfile

/-- The segments of an approved path. -/
theorem Approved.segments (h : Approved host path) :
    ∃ rest, path = '/' :: ['/'].intercalate ("iiif".toList :: rest) ∧
      ∀ s ∈ "iiif".toList :: rest, '/' ∉ s ∧ ¬BadSegment s := by
  obtain ⟨P, hmem, hpath⟩ := h
  rcases List.mem_pair.mp hmem with heq | heq
  · obtain ⟨rfl, rfl⟩ := Prod.mk.inj heq
    have hfixed : ∀ s ∈ ["iiif".toList, "ark:".toList, "12148".toList],
        '/' ∉ s ∧ ¬(s = [] ∨ s = ".".toList ∨ s = "..".toList) := by decide
    obtain ⟨below, rfl, hgood⟩ := segments_of_renditions
      ["iiif".toList, "ark:".toList, "12148".toList]
      (List.cons_ne_nil _ _) (by decide) ⟨by decide, by decide, by decide⟩ hpath
    exact ⟨_, rfl, fun s hs => (List.mem_append.mp hs).elim (hfixed s) (hgood s)⟩
  · obtain ⟨rfl, rfl⟩ := Prod.mk.inj heq
    have hfixed : ∀ s ∈ ["iiif".toList, "image".toList, "v3".toList, "ark:".toList, "12148".toList],
        '/' ∉ s ∧ ¬(s = [] ∨ s = ".".toList ∨ s = "..".toList) := by decide
    obtain ⟨below, rfl, hgood⟩ := segments_of_renditions
      ["iiif".toList, "image".toList, "v3".toList, "ark:".toList, "12148".toList]
      (List.cons_ne_nil _ _) (by decide) ⟨by decide, by decide, by decide⟩ hpath
    exact ⟨_, rfl, fun s hs => (List.mem_append.mp hs).elim (hfixed s) (hgood s)⟩

/-- What an approved host and path are made of. -/
theorem Approved.plain (h : Approved host path) :
    (∀ c ∈ host, isPlainHost c = true) ∧ ∀ c ∈ path, isPlain c = true := by
  obtain ⟨P, hmem, hpath⟩ := h
  have hhosts : ∀ p ∈ policies, ∀ c ∈ p.1, isPlainHost c = true := by decide
  have hletters : ∀ p ∈ policies, ∀ c ∈ letters p.2, isPlain c = true := by decide +kernel
  exact ⟨hhosts _ hmem, fun c hc => hletters _ hmem c (mem_letters hpath hc)⟩

theorem between_eq {u v : Text} (hu : path = u ++ x ++ v) :
    (path.drop u.length).take (path.length - u.length - v.length) = x := by
  subst hu
  rw [List.append_assoc, List.drop_left]
  have hlength : (u ++ (x ++ v)).length - u.length - v.length = x.length := by
    simp only [List.length_append]
    omega
  rw [hlength, List.take_left]

theorem legacyArk_eq_some : legacyArk path = some ark ↔
    ark ∈ arkPattern.matches' ∧ path = legacyFront ++ ark ++ legacyEnd := by
  have hmatch : legacyFullPattern.rmatch path = true ↔
      ∃ a ∈ arkPattern.matches', path = legacyFront ++ a ++ legacyEnd := by
    rw [RegularExpression.rmatch_iff_matches', legacyFullPattern, mem_lit_mul]
    constructor
    · rintro ⟨_, h, rfl⟩
      obtain ⟨a, ha, _, hend, rfl⟩ := mem_mul.mp h
      exact ⟨a, ha, by rw [mem_lit.mp hend, List.append_assoc]⟩
    · rintro ⟨a, ha, rfl⟩
      exact ⟨a ++ legacyEnd, mem_mul.mpr ⟨a, ha, legacyEnd, mem_lit.mpr rfl, rfl⟩, by simp⟩
  unfold legacyArk
  constructor
  · intro h
    split at h
    · rename_i hfull
      obtain ⟨a, ha, hpath⟩ := hmatch.mp hfull
      rw [between_eq hpath, Option.some.injEq] at h
      exact ⟨h ▸ ha, h ▸ hpath⟩
    · cases h
  · rintro ⟨hark, hpath⟩
    rw [if_pos (hmatch.mpr ⟨ark, hark, hpath⟩), between_eq hpath]

end Paths

/-! ### Targets -/

/-- The URL of a path on a host. -/
def secureUrl (host path : Text) : Text := "https".toList ++ ':' :: '/' :: '/' :: (host ++ path)

theorem secureUrl_eq (host path : Text) :
    "https://".toList ++ host ++ path = secureUrl host path := by
  have hscheme : "https://".toList = "https".toList ++ "://".toList := by decide
  rw [secureUrl, hscheme]
  simp

/-- What is fetched for a target: the full image of the legacy host from the current endpoint. -/
def PilotTarget.rendition (t : PilotTarget) : Text × Text :=
  match if t.host = legacyHost then legacyArk t.path else none with
  | some ark => (v3Host, "/iiif/image/v3/".toList ++ ark ++ "/full/max/0/default.jpg".toList)
  | none => (t.host, t.path)

/-- The alias of a path on a host. -/
def aliasOf (host path : Text) : Text :=
  pilotPartition ++ '/' :: (if host = legacyHost then [] else host ++ ['/']) ++
    path.dropWhile isSlash

/-- A target that the policy returns. -/
structure PilotTarget.Valid (t : PilotTarget) : Prop where
  approved : Approved t.host t.path
  originUrl : t.originUrl = secureUrl t.host t.path

section Targets

variable {checks : NetlocChecks} {raw host path ark : Text} {t t₁ t₂ : PilotTarget}

theorem lookup_policies {P : RegularExpression Char} :
    policies.lookup host = some P ↔ (host, P) ∈ policies := by
  have hdiff : v3Host ≠ legacyHost := by decide
  rw [List.lookup_eq_some_iff]
  constructor
  · rintro ⟨before, rest, heq, -⟩
    rw [heq]
    simp
  · intro h
    rcases List.mem_pair.mp h with heq | heq
    · obtain ⟨rfl, rfl⟩ := Prod.mk.inj heq
      exact ⟨[], _, rfl, by simp⟩
    · obtain ⟨rfl, rfl⟩ := Prod.mk.inj heq
      exact ⟨[_], [], rfl, by simpa using hdiff⟩

/-- The full image of a document, in some size and format. -/
theorem mem_renditions_full {root size file : Text} {formats : List Text}
    (h : ark ∈ arkPattern.matches')
    (hsize : size ∈ sizePattern.matches') (hfile : file ∈ (filePattern formats).matches') :
    root ++ ark ++ '/' :: ['/'].intercalate ["full".toList, size, "0".toList, file] ∈
      (renditions (root ++ "ark:/12148/".toList) formats).matches' := by
  obtain ⟨_, hpage, rfl⟩ := mem_lit_mul.mp h
  obtain ⟨name, hname, _, hrest, rfl⟩ := mem_mul.mp hpage
  obtain ⟨folio, hfolio, rfl⟩ := mem_lit_mul.mp hrest
  have hregion : "full".toList ∈ regionPattern.matches' :=
    (RegularExpression.rmatch_iff_matches' _ _).mp (by decide)
  have hrotation : "0".toList ∈ rotationPattern.matches' :=
    (RegularExpression.rmatch_iff_matches' _ _).mp (by decide)
  refine mem_lit_mul.mpr ⟨_, mem_joined.mpr ⟨[name, folio, "full".toList, size, "0".toList, file],
    .cons hname (.cons hfolio (.cons hregion (.cons hsize (.cons hrotation (.cons hfile .nil))))),
      rfl⟩, ?_⟩
  have hslash : "/".toList = ['/'] := rfl
  rw [List.intercalate_cons_cons, List.intercalate_cons_cons, hslash]
  simp only [List.append_assoc, List.cons_append, List.nil_append]

/-- The full image of a document on the current endpoint is approved. -/
theorem approved_full (h : ark ∈ arkPattern.matches') :
    Approved v3Host ("/iiif/image/v3/".toList ++ ark ++ "/full/max/0/default.jpg".toList) := by
  have hroot : "/iiif/image/v3/ark:/12148/".toList = "/iiif/image/v3/".toList ++
      "ark:/12148/".toList := by
    decide
  have hend : "/full/max/0/default.jpg".toList =
      '/' :: ['/'].intercalate ["full".toList, "max".toList, "0".toList, "default.jpg".toList] := by
    decide
  refine ⟨v3ImagePattern, by simp [policies], ?_⟩
  rw [v3ImagePattern, hroot, hend]
  refine mem_renditions_full h ?_ ?_
  · exact (RegularExpression.rmatch_iff_matches' _ _).mp (by decide)
  · exact (RegularExpression.rmatch_iff_matches' _ _).mp (by decide)

/-- The full image of a document on the legacy host is approved. -/
theorem approved_legacy (h : ark ∈ arkPattern.matches') :
    Approved legacyHost (legacyFront ++ ark ++ legacyEnd) := by
  have hroot : "/iiif/ark:/12148/".toList = legacyFront ++ "ark:/12148/".toList := by decide
  have hend : legacyEnd =
      '/' :: ['/'].intercalate ["full".toList, "full".toList, "0".toList, "native.jpg".toList] := by
    decide
  refine ⟨imagePattern, by simp [policies], ?_⟩
  rw [imagePattern, hroot, hend]
  refine mem_renditions_full h ?_ ?_
  · exact (RegularExpression.rmatch_iff_matches' _ _).mp (by decide)
  · exact (RegularExpression.rmatch_iff_matches' _ _).mp (by decide)

/-- What the policy has checked of a URL that it accepts. -/
theorem require_parts (h : GallicaPolicy.require checks raw = .ok t) :
    raw.length ≤ 2048 ∧ ∃ parts, urlsplit checks raw = .ok parts ∧ parts.scheme = "https".toList ∧
      t.host = parts.netloc.map Char.toLower ∧ t.path = unquote parts.path ∧ t.Valid := by
  simp only [GallicaPolicy.require, except_bind_eq_ok, raiseIf_eq_ok, not_or, not_lt] at h
  obtain ⟨_, ⟨-, hlength, -⟩, h⟩ := h
  split at h
  · cases h
  · split at h
    · cases h
    · rename_i parts hparts _ P hP
      simp only [except_bind_eq_ok, raiseIf_eq_ok, except_pure_eq_ok, not_or, not_not] at h
      obtain ⟨_, ⟨hscheme, -⟩, _, -, _, -, _, hmatch, rfl⟩ := h
      refine ⟨hlength, parts, hparts, hscheme, rfl, rfl, ⟨P, lookup_policies.mp hP, ?_⟩,
        secureUrl_eq _ _⟩
      exact (RegularExpression.rmatch_iff_matches' _ _).mp (by simpa using hmatch)

theorem require_valid (h : GallicaPolicy.require checks raw = .ok t) : t.Valid := by
  obtain ⟨-, _, -, -, -, -, hvalid⟩ := require_parts h
  exact hvalid

theorem Approved.no_slash (h : Approved host path) : '/' ∉ host := by
  intro hmem
  have hplain := h.plain.1 '/' hmem
  revert hplain
  decide

theorem Approved.other (h : Approved host path) (hhost : host ≠ legacyHost) : host = v3Host := by
  obtain ⟨P, hmem, -⟩ := h
  have hall : ∀ p ∈ policies, p.1 ≠ legacyHost → p.1 = v3Host := by decide
  exact hall _ hmem hhost

/-- Below the leading slash, an approved path starts with a letter. -/
theorem Approved.path_cons (h : Approved host path) : ∃ rest, path = '/' :: 'i' :: rest := by
  obtain ⟨rest, rfl, -⟩ := h.segments
  cases rest with
  | nil => exact ⟨_, rfl⟩
  | cons second rest =>
    rw [List.intercalate_cons_cons]
    exact ⟨_, rfl⟩

theorem rendition_of_full (hhost : t.host = legacyHost) (hark : legacyArk t.path = some ark) :
    t.rendition = (v3Host, "/iiif/image/v3/".toList ++ ark ++
      "/full/max/0/default.jpg".toList) := by
  rw [PilotTarget.rendition, if_pos hhost, hark]

theorem rendition_of_other (h : t.host = legacyHost → legacyArk t.path = none) :
    t.rendition = (t.host, t.path) := by
  rw [PilotTarget.rendition]
  split_ifs with hhost
  · rw [h hhost]
  · rfl

/-- The two forms of a target. -/
theorem full_or_other (t : PilotTarget) :
    (t.host = legacyHost ∧ ∃ ark, legacyArk t.path = some ark) ∨
      (t.host = legacyHost → legacyArk t.path = none) := by
  by_cases hhost : t.host = legacyHost
  · cases hark : legacyArk t.path with
    | none => exact .inr fun _ => rfl
    | some ark => exact .inl ⟨hhost, ark, rfl⟩
  · exact .inr fun h => absurd h hhost

theorem PilotTarget.Valid.rendition_approved (h : t.Valid) :
    Approved t.rendition.1 t.rendition.2 := by
  rcases full_or_other t with ⟨hhost, ark, hark⟩ | hother
  · rw [rendition_of_full hhost hark]
    exact approved_full (legacyArk_eq_some.mp hark).1
  · rw [rendition_of_other hother]
    exact h.approved

theorem PilotTarget.Valid.fetchUrl_eq (h : t.Valid) :
    t.fetchUrl = secureUrl t.rendition.1 t.rendition.2 := by
  rcases full_or_other t with ⟨hhost, ark, hark⟩ | hother
  · rw [rendition_of_full hhost hark, ← secureUrl_eq, PilotTarget.fetchUrl, if_pos hhost, hark]
    simp only [List.append_assoc]
  · rw [rendition_of_other hother, ← h.originUrl, PilotTarget.fetchUrl]
    split_ifs with hhost
    · rw [hother hhost]
    · rfl

/-- A URL names its host and its path. -/
theorem secureUrl_inj {host' path' : Text} (h : Approved host path) (h' : Approved host' path')
    (heq : secureUrl host path = secureUrl host' path') : host = host' ∧ path = path' := by
  obtain ⟨rest, rfl⟩ := h.path_cons
  obtain ⟨rest', rfl⟩ := h'.path_cons
  unfold secureUrl at heq
  simp only [List.append_cancel_left_eq, List.cons.injEq, true_and] at heq
  obtain ⟨hhost, hpath⟩ := append_slash_inj h.no_slash h'.no_slash heq
  exact ⟨hhost, by rw [hpath]⟩

theorem urlsplit_secure (h : Approved host path) :
    urlsplit checks (secureUrl host path) =
      .ok { scheme := "https".toList, netloc := host, path, query := [] } := by
  obtain ⟨rest, rfl⟩ := h.path_cons
  exact urlsplit_plain (by simp) h.plain.1 h.plain.2

theorem v3Host_ne : v3Host ≠ legacyHost := by decide

theorem PilotTarget.Valid.relativeAlias_eq (h : t.Valid) :
    t.relativeAlias checks = .ok (aliasOf t.rendition.1 t.rendition.2) := by
  have hsplit := @urlsplit_secure checks _ _ h.rendition_approved
  rw [PilotTarget.relativeAlias, h.fetchUrl_eq, hsplit]
  rcases full_or_other t with ⟨hhost, ark, hark⟩ | hother
  · have hdiff : secureUrl t.rendition.1 t.rendition.2 ≠ t.originUrl := by
      rw [h.originUrl]
      intro heq
      have hsame := (secureUrl_inj h.rendition_approved h.approved heq).1
      rw [rendition_of_full hhost hark, hhost] at hsame
      exact v3Host_ne hsame
    rw [if_pos hdiff, rendition_of_full hhost hark, aliasOf, if_neg v3Host_ne]
    show Except.ok _ = _
    simp only [List.append_assoc, List.cons_append, List.nil_append]
  · rw [rendition_of_other hother, if_neg (by rw [h.originUrl]; simp)]
    rfl

/-! ### Aliases -/

/-- An alias path without whitespace, from its segments. -/
theorem normalizeRelativeAlias_join {parts : List Text} (hne : parts ≠ [])
    (hgood : ∀ s ∈ parts, '/' ∉ s ∧ ¬BadSegment s)
    (hspace : ∀ s ∈ parts, ∀ c ∈ s, isSpace c = false) :
    normalizeRelativeAlias (['/'].intercalate parts) = .ok (['/'].intercalate parts) := by
  generalize hpath : ['/'].intercalate parts = path
  have hsplit : path.splitOn '/' = parts := by
    rw [← hpath]
    exact List.splitOn_intercalate '/' (fun s hs => (hgood s hs).1) hne
  have hsegments : ∀ part ∈ path.splitOn '/', ¬BadSegment part := by
    rw [hsplit]
    exact fun s hs => (hgood s hs).2
  have hplain : ∀ c ∈ path, isSpace c = false := by
    intro c hc
    by_cases hslash : c = '/'
    · rw [hslash]
      decide
    · rw [← hpath] at hc
      obtain ⟨s, hs, hcs⟩ := mem_intercalate hslash hc
      exact hspace s hs c hcs
  have hstrip : stripSpace path = path := by
    rw [stripSpace, strip, dropWhile_eq_self_of_forall hplain, rdropWhile_eq_self_of_forall hplain]
  refine normalizeRelativeAlias_eq_ok.mpr ⟨?_, ?_, hsegments⟩
  · -- an outer slash would cut off an empty segment
    show strip isSlash (stripSpace path) = path
    rw [hstrip, strip]
    have hfront : path.dropWhile isSlash = path := by
      cases path with
      | nil => rfl
      | cons c rest =>
        refine List.dropWhile_cons_of_neg fun hc => ?_
        have heq : c = '/' := by simpa [isSlash] using hc
        refine hsegments [] ?_ (.inl rfl)
        rw [heq, show '/' :: rest = [] ++ '/' :: rest from rfl, List.splitOn_append_cons_self]
        simp
    rw [hfront, List.rdropWhile_eq_self_iff]
    intro hl hlast
    have heq : path.getLast hl = '/' := by simpa [isSlash] using hlast
    refine hsegments [] ?_ (.inl rfl)
    rw [← List.dropLast_append_getLast hl, heq, List.splitOn_append_cons_self]
    simp
  · rintro rfl
    exact hsegments [] (by simp) (.inl rfl)

/-- An approved path below its slash, and its segments. -/
theorem Approved.below (h : Approved host path) :
    ∃ rest, path.dropWhile isSlash = ['/'].intercalate ("iiif".toList :: rest) ∧
      ∀ s ∈ "iiif".toList :: rest, ('/' ∉ s ∧ ¬BadSegment s) ∧ ∀ c ∈ s, isSpace c = false := by
  obtain ⟨rest, hpath, hgood⟩ := h.segments
  obtain ⟨more, hmore⟩ := h.path_cons
  refine ⟨rest, ?_, fun s hs => ⟨hgood s hs, fun c hc => ?_⟩⟩
  · rw [hmore, List.cons.injEq] at hpath
    rw [hmore, List.dropWhile_cons_of_pos rfl, List.dropWhile_cons_of_neg (by decide), hpath.2]
  · refine plain_not_space (h.plain.2 c ?_)
    rw [hpath]
    exact List.mem_cons_of_mem _ (subset_intercalate hs hc)

theorem Approved.host_segment (h : Approved host path) :
    ('/' ∉ host ∧ ¬BadSegment host) ∧ ∀ c ∈ host, isSpace c = false := by
  obtain ⟨P, hmem, -⟩ := h
  have hall : ∀ p ∈ policies, ('/' ∉ p.1 ∧ ¬(p.1 = [] ∨ p.1 = ".".toList ∨ p.1 = "..".toList)) ∧
      ∀ c ∈ p.1, isSpace c = false := by decide
  exact hall _ hmem

/-- The segments of the alias of a rendition. -/
theorem Approved.alias_segments (h : Approved host path) :
    ∃ parts, aliasOf host path = ['/'].intercalate (pilotPartition :: parts) ∧
      ∀ s ∈ pilotPartition :: parts, ('/' ∉ s ∧ ¬BadSegment s) ∧ ∀ c ∈ s, isSpace c = false := by
  have hpartition : ('/' ∉ pilotPartition ∧ ¬(pilotPartition = [] ∨ pilotPartition = ".".toList ∨
      pilotPartition = "..".toList)) ∧ ∀ c ∈ pilotPartition, isSpace c = false := by decide
  obtain ⟨rest, hbelow, hgood⟩ := h.below
  rw [aliasOf, hbelow]
  split_ifs with hhost
  · refine ⟨"iiif".toList :: rest, ?_, fun s hs => ?_⟩
    · simp [List.intercalate_cons_cons]
    · rcases List.mem_cons.mp hs with rfl | hs
      · exact hpartition
      · exact hgood s hs
  · refine ⟨host :: "iiif".toList :: rest, ?_, fun s hs => ?_⟩
    · simp [List.intercalate_cons_cons]
    · rcases List.mem_cons.mp hs with rfl | hs
      · exact hpartition
      · rcases List.mem_cons.mp hs with rfl | hs
        · exact h.host_segment
        · exact hgood s hs

/-- An alias names its host and its path. -/
theorem aliasOf_inj {host' path' : Text} (h : Approved host path) (h' : Approved host' path')
    (heq : aliasOf host path = aliasOf host' path') : host = host' ∧ path = path' := by
  obtain ⟨rest, rfl⟩ := h.path_cons
  obtain ⟨rest', rfl⟩ := h'.path_cons
  have hdrop : ∀ r, ('/' :: 'i' :: r : Text).dropWhile isSlash = 'i' :: r := fun r => rfl
  have hfirst : ∀ r r' : Text, v3Host ++ r ≠ 'i' :: r' := by
    have hcons : v3Host = 'o' :: v3Host.tail := by decide
    intro r r' h
    rw [hcons, List.cons_append, List.cons.injEq] at h
    exact absurd h.1 (by decide)
  unfold aliasOf at heq
  rw [hdrop, hdrop, List.append_assoc, List.append_assoc] at heq
  simp only [List.append_cancel_left_eq, List.cons_append, List.cons.injEq, true_and] at heq
  split_ifs at heq with hl hl' hl'
  · rw [hl, hl']
    simpa using heq
  · rw [h'.other hl'] at heq
    exact absurd (by simpa using heq.symm) (hfirst ('/' :: 'i' :: rest') rest)
  · rw [h.other hl] at heq
    exact absurd (by simpa using heq) (hfirst ('/' :: 'i' :: rest) rest')
  · rw [h.other hl, h'.other hl'] at heq ⊢
    simpa using heq

/-- Aliases are told apart as the fetched URLs are, so two renditions never share an entry and the
two spellings of a full image do; and each is a normalized path in the partition of the pilot. -/
theorem gallica_aliases {raw₁ raw₂ : Text} (h₁ : GallicaPolicy.require checks raw₁ = .ok t₁)
    (h₂ : GallicaPolicy.require checks raw₂ = .ok t₂) :
    ∃ a₁ a₂, t₁.relativeAlias checks = .ok a₁ ∧ t₂.relativeAlias checks = .ok a₂ ∧
      (a₁ = a₂ ↔ t₁.fetchUrl = t₂.fetchUrl) ∧
      (∀ a ∈ [a₁, a₂], normalizeRelativeAlias a = .ok a ∧
        (a.splitOn '/').head? = some pilotPartition) ∧
      ∀ ark, t₁.host = legacyHost → legacyArk t₁.path = some ark → t₂.host = v3Host →
        t₂.path = "/iiif/image/v3/".toList ++ ark ++ "/full/max/0/default.jpg".toList →
          a₁ = a₂ := by
  have hv₁ := require_valid h₁
  have hv₂ := require_valid h₂
  refine ⟨_, _, hv₁.relativeAlias_eq, hv₂.relativeAlias_eq, ?_, ?_, ?_⟩
  · rw [hv₁.fetchUrl_eq, hv₂.fetchUrl_eq]
    constructor
    · intro heq
      obtain ⟨hhost, hpath⟩ := aliasOf_inj hv₁.rendition_approved hv₂.rendition_approved heq
      rw [hhost, hpath]
    · intro heq
      obtain ⟨hhost, hpath⟩ := secureUrl_inj hv₁.rendition_approved hv₂.rendition_approved heq
      rw [hhost, hpath]
  · intro a ha
    have happroved : ∃ host path, a = aliasOf host path ∧ Approved host path := by
      rcases List.mem_pair.mp ha with rfl | rfl
      · exact ⟨_, _, rfl, hv₁.rendition_approved⟩
      · exact ⟨_, _, rfl, hv₂.rendition_approved⟩
    obtain ⟨host, path, rfl, h⟩ := happroved
    obtain ⟨parts, heq, hgood⟩ := h.alias_segments
    have hsplit := List.splitOn_intercalate '/' (fun s hs => (hgood s hs).1.1)
      (List.cons_ne_nil _ parts)
    rw [heq, hsplit]
    exact ⟨normalizeRelativeAlias_join (List.cons_ne_nil _ _) (fun s hs => (hgood s hs).1)
      fun s hs => (hgood s hs).2, rfl⟩
  · intro ark hhost hark hhost' hpath'
    rw [rendition_of_full hhost hark, rendition_of_other fun h =>
      absurd (hhost'.symm.trans h) v3Host_ne, hhost', hpath']

end Targets

/-! ### Two spellings of one image -/

def legacySpelling : Text :=
  "https://Gallica.bnf.fr/iiif/ark:/12148/%627/f1/full/full/0/native.jpg".toList

def legacyTarget : PilotTarget :=
  { originUrl := "https://gallica.bnf.fr/iiif/ark:/12148/b7/f1/full/full/0/native.jpg".toList
    path := "/iiif/ark:/12148/b7/f1/full/full/0/native.jpg".toList }

def currentSpelling : Text :=
  "https://openapi.bnf.fr/iiif/image/v3/ark:/12148/b7/f1/full/max/0/default.jpg".toList

def currentTarget : PilotTarget :=
  { originUrl := currentSpelling
    path := "/iiif/image/v3/ark:/12148/b7/f1/full/max/0/default.jpg".toList, host := v3Host }

theorem legacy_required :
    GallicaPolicy.require uncheckedNetloc legacySpelling = .ok legacyTarget := by
  decide +kernel

theorem current_required :
    GallicaPolicy.require uncheckedNetloc currentSpelling = .ok currentTarget := by
  decide +kernel

theorem gallica_aliases_shared : ∃ a, legacyTarget.relativeAlias uncheckedNetloc = .ok a ∧
    currentTarget.relativeAlias uncheckedNetloc = .ok a ∧ normalizeRelativeAlias a = .ok a := by
  obtain ⟨a₁, a₂, ha₁, ha₂, -, hnormal, hshared⟩ := gallica_aliases legacy_required current_required
  have hark : legacyArk legacyTarget.path = some "ark:/12148/b7/f1".toList := by decide +kernel
  have heq : a₁ = a₂ := hshared _ rfl hark rfl (by decide +kernel)
  subst heq
  exact ⟨a₁, ha₁, ha₂, (hnormal a₁ (by simp)).1⟩

end AssetStore
