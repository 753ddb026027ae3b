import AssetStore.Fetcher.RoundTrip
import AssetStore.Fetcher.SafeSubset

/-! The templates of a rule set that the loader accepts. The first rule that matches a URL decides,
and only a regex rule can raise: where a field of its template does not suit what the pattern has
matched. -/

namespace AssetStore

open Lib

/-- The rule matches the URL. -/
def ConfigRule.applies (lib : Urllib) (re : Re) (url : NormalizedUrl) : ConfigRule → Bool
  | .iiif rule => (rule.matchUrl lib url).isSome
  | .passthrough host mirrorId => (hostPassthroughRule host mirrorId url).isSome
  | .regex rule => (rule.matched re url).isSome

/-- Every field of the template suits the groups of a match. -/
def RegexRule.Suits {O : Type} (py : Formatting.Python O) (rule : RegexRule)
    (matched : Nat → Option Text) : Prop :=
  ∀ f ∈ Formatting.fields rule.aliasTemplate, Formatting.Suits py (groupdict rule.pattern matched) f

section Templates

variable {O : Type} {lib : Urllib} {py : Formatting.Python O} {re : Re} {url : NormalizedUrl}
  {rule : ConfigRule}
  {rules : List ConfigRule} {regexRule : RegexRule} {table : TomlTable}
  {matched : Nat → Option Text}

theorem matchUrl_of_not_applies (h : rule.applies lib re url = false) :
    rule.matchUrl lib py re url = .ok none := by
  cases rule with
  | iiif rule =>
    have hnone : rule.matchUrl lib url = none := by simpa [ConfigRule.applies] using h
    rw [ConfigRule.matchUrl, hnone]
  | passthrough host mirrorId =>
    have hnone : hostPassthroughRule host mirrorId url = none := by
      simpa [ConfigRule.applies] using h
    rw [ConfigRule.matchUrl, hnone]
  | regex rule =>
    have hnone : rule.matched re url = none := by simpa [ConfigRule.applies] using h
    simp only [ConfigRule.matchUrl, RegexRule.matchUrl, hnone]

theorem matchUrl_of_applies (h : rule.applies lib re url = true) :
    rule.matchUrl lib py re url ≠ .ok none := by
  cases rule with
  | iiif rule =>
    obtain ⟨found, hfound⟩ := Option.isSome_iff_exists.mp h
    simp only [ConfigRule.matchUrl, hfound]
    simp
  | passthrough host mirrorId =>
    obtain ⟨found, hfound⟩ := Option.isSome_iff_exists.mp h
    simp only [ConfigRule.matchUrl, hfound]
    simp
  | regex rule =>
    obtain ⟨matched, hmatched⟩ := Option.isSome_iff_exists.mp h
    simp only [ConfigRule.matchUrl, RegexRule.matchUrl, hmatched]
    simp

/-- The first rule that matches decides. -/
theorem evaluateLoaded_eq : evaluateLoaded lib py re url rules =
    ((rules.find? fun rule => rule.applies lib re url).elim (.ok none) fun rule =>
      rule.matchUrl lib py re url) := by
  induction rules with
  | nil => rfl
  | cons rule rules ih =>
    cases happlies : rule.applies lib re url with
    | false =>
      rw [evaluateLoaded, matchUrl_of_not_applies happlies,
        List.find?_cons_of_neg (by simp [happlies]), ← ih]
      rfl
    | true =>
      rw [evaluateLoaded, List.find?_cons_of_pos (by simp [happlies]), Option.elim_some]
      have hfound : rule.matchUrl lib py re url ≠ .ok none := matchUrl_of_applies happlies
      cases hmatch : rule.matchUrl lib py re url with
      | error e => rfl
      | ok found =>
        cases found with
        | none => exact absurd hmatch hfound
        | some found => rfl

/-- A template whose fields only name groups suits every match. -/
theorem suits_of_plain (h : ∀ f ∈ Formatting.fields regexRule.aliasTemplate, f.name ≠ [] ∧
      f = { name := f.name }) :
    regexRule.Suits py matched := by
  intro f hf
  obtain ⟨hname, heq⟩ := h f hf
  refine ⟨hname, .inl (by rw [heq]), [], by rw [heq]; rfl, .inl rfl⟩

/-- The template of a rule that was loaded is formatted with a match exactly when it suits it. -/
theorem RegexRule.Loaded.formats (h : regexRule.Loaded re table)
    (hplain : ∀ name, re.unicode.isIdentifier name = true → Formatting.PlainName py name) :
    (∃ tail, Formatting.format py (Formatting.keywords (groupdict regexRule.pattern matched))
      regexRule.aliasTemplate =
      .ok tail) ↔ regexRule.Suits py matched := by
  obtain ⟨pathMatch, -, -, hparse⟩ := h.pattern
  have hnames : ∀ f ∈ Formatting.fields regexRule.aliasTemplate, f.name ≠ [] →
      Formatting.PlainName py f.name ∧ groupdict regexRule.pattern matched f.name ≠ none := by
    intro f hf hname
    obtain ⟨q, hq, heq⟩ := List.mem_map.mp (h.names f hf hname)
    refine ⟨heq ▸ hplain q.1 (Regex.parse_identified hparse q hq), ?_⟩
    rw [groupdict, ne_eq, Option.map_eq_none_iff, List.lookup_eq_none_iff]
    intro hall
    have hdiffers := hall q hq
    rw [heq] at hdiffers
    simp at hdiffers
  rw [Formatting.format_returns hnames, and_iff_right h.template]
  rfl

theorem matchUrl_returns (hmatched : regexRule.matched re url = some matched) :
    (∃ found, ConfigRule.matchUrl lib py re (.regex regexRule) url = .ok found) ↔ ∃ tail,
      Formatting.format py (Formatting.keywords (groupdict regexRule.pattern matched))
        regexRule.aliasTemplate = .ok tail := by
  simp only [ConfigRule.matchUrl, RegexRule.matchUrl, hmatched, except_bind_eq_ok,
    except_pure_eq_ok]
  constructor
  · rintro ⟨found, tail, htail, -⟩
    exact ⟨tail, htail⟩
  · rintro ⟨tail, htail⟩
    exact ⟨_, tail, htail, rfl⟩

/-- Evaluating a rule set that was accepted returns exactly when the first rule that matches is no
regex rule, or its template suits the match; and a template is formatted with a match exactly when
it suits it. -/
theorem evaluate_returns_iff {loads : Text → Option TomlTable} {text : Text}
    (hplain : ∀ name, re.unicode.isIdentifier name = true → Formatting.PlainName py name)
    (h : loadRuleSet re loads text = .ok rules) :
    (∀ url, (∃ found, evaluateLoaded lib py re url rules = .ok found) ↔ ∀ rule matched,
      rules.find? (·.applies lib re url) = some (.regex rule) → rule.matched re url = some matched →
        rule.Suits py matched) ∧
    ∀ rule matched, .regex rule ∈ rules →
      ((∃ tail, Formatting.format py (Formatting.keywords (groupdict rule.pattern matched))
        rule.aliasTemplate =
        .ok tail) ↔ rule.Suits py matched) := by
  have hformats : ∀ rule matched, .regex rule ∈ rules →
      ((∃ tail, Formatting.format py (Formatting.keywords (groupdict rule.pattern matched))
        rule.aliasTemplate =
        .ok tail) ↔ rule.Suits py matched) := by
    intro rule matched hmem
    obtain ⟨table, hloaded⟩ := loadRuleSet_loaded h hmem
    exact hloaded.formats hplain
  refine ⟨fun url => ?_, hformats⟩
  rw [evaluateLoaded_eq]
  cases hfirst : rules.find? (·.applies lib re url) with
  | none => simp
  | some first =>
    have hmem : first ∈ rules := List.mem_of_find?_eq_some hfirst
    have happlies : first.applies lib re url = true := List.find?_some hfirst
    rw [Option.elim_some]
    cases first with
    | iiif rule => simp [ConfigRule.matchUrl]
    | passthrough host mirrorId => simp [ConfigRule.matchUrl]
    | regex rule =>
      obtain ⟨matched, hmatched⟩ := Option.isSome_iff_exists.mp happlies
      rw [matchUrl_returns hmatched, hformats rule matched hmem]
      constructor
      · rintro hsuits rule' matched' hrule hmatched'
        obtain rfl := ConfigRule.regex.inj (Option.some.inj hrule)
        rw [hmatched, Option.some.injEq] at hmatched'
        exact hmatched' ▸ hsuits
      · intro hall
        exact hall rule matched rfl hmatched

end Templates

/-! ### Templates of ASCII -/

/-- Formatting of ASCII text, whose attributes and items are not looked up. -/
def asciiPython : Formatting.Python Empty where
  decimal c := if c.isDigit then some (c.toNat - 48) else none
  repr s := "'".toList ++ s ++ "'".toList
  ascii s := "'".toList ++ s ++ "'".toList
  getattr _ _ := .error .attributeError
  getitem _ _ := .error .typeError
  convertObject _ o := o.elim
  formatObject o _ := o.elim

theorem not_isDigit_of_isAlpha {c : Char} (h : c.isAlpha = true) : c.isDigit = false := by
  by_contra hdigit
  simp only [Char.isDigit, Bool.not_eq_false, Bool.and_eq_true, decide_eq_true_eq] at hdigit
  have hhigh : c.toNat ≤ 57 := hdigit.2
  simp only [Char.isAlpha, Char.isUpper, Char.isLower, Bool.or_eq_true, Bool.and_eq_true,
    decide_eq_true_eq] at h
  rcases h with ⟨hlow, -⟩ | ⟨hlow, -⟩
  · have hupper : 65 ≤ c.toNat := hlow
    omega
  · have hlower : 97 ≤ c.toNat := hlow
    omega

theorem asciiIdentifier_plain {name : Text} (h : asciiIdentifier name = true) :
    Formatting.PlainName asciiPython name := by
  simp only [asciiIdentifier, Bool.and_eq_true, Option.any_eq_true, List.all_eq_true] at h
  obtain ⟨⟨c, hc, hletter⟩, hall⟩ := h
  constructor
  · intro c hc
    have hword := hall c hc
    rw [Formatting.isStep, Bool.or_eq_false_iff, beq_eq_false_iff_ne, beq_eq_false_iff_ne]
    constructor
    · rintro rfl
      exact absurd hword (by decide)
    · rintro rfl
      exact absurd hword (by decide)
  · obtain ⟨rest, rfl⟩ : ∃ rest, name = c :: rest := List.head?_eq_some_iff.mp hc
    refine ⟨c, rest, rfl, ?_⟩
    have hdigit : c.isDigit = false := by
      rcases Bool.or_eq_true_iff.mp hletter with halpha | hunderscore
      · exact not_isDigit_of_isAlpha halpha
      · obtain rfl := beq_iff_eq.mp hunderscore
        decide
    simp [asciiPython, hdigit]

/-- A document with one regex rule, for texts without quotes. -/
def ruleToml (pathMatch aliasTemplate : String) : Text :=
  ("[[rule]]\ntype = 'regex'\nhost = 'images.example.org'\nmirror_id = 'example'\npath_match = '" ++
    pathMatch ++
    "'\nalias_template = '" ++ aliasTemplate ++ "'\n").toList

/-- `tomllib.loads`, for that document only. -/
def loadsRule (pathMatch aliasTemplate : String) (text : Text) : Option TomlTable :=
  if text = ruleToml pathMatch aliasTemplate then
    some [("rule".toList, .array [.table (regexTable pathMatch aliasTemplate)])]
  else none

/-- Regular expressions, for `(?P<id>.+)` only: one line is matched as a whole. -/
def lineRe : Re := asciiRe fun _ path =>
  if path ≠ [] ∧ '\n' ∉ path then some fun group => if group ≤ 1 then some path else none else none

/-- A template that names its group raises for no URL. -/
theorem evaluate_returns_named : ∃ rules,
    loadRuleSet lineRe (loadsRule "(?P<id>.+)" "img/\x7bid\x7d")
      (ruleToml "(?P<id>.+)" "img/\x7bid\x7d") = .ok rules ∧
      ∀ url, ∃ found, evaluateLoaded webUrllib asciiPython lineRe url rules = .ok found := by
  obtain ⟨rules, hrules, htemplates⟩ := exists_ok_of_any
    (x := loadRuleSet lineRe (loadsRule "(?P<id>.+)" "img/\x7bid\x7d")
      (ruleToml "(?P<id>.+)" "img/\x7bid\x7d"))
    (P := fun rules => rules.all fun
      | .regex rule => rule.aliasTemplate == "img/\x7bid\x7d".toList
      | _ => false) (by decide +kernel)
  refine ⟨rules, hrules, fun url =>
    ((evaluate_returns_iff (fun _ => asciiIdentifier_plain) hrules).1 url).mpr ?_⟩
  intro rule matched hfirst _
  have htemplate : rule.aliasTemplate = "img/\x7bid\x7d".toList := by
    simpa using List.all_eq_true.mp htemplates _ (List.mem_of_find?_eq_some hfirst)
  have hfields : Formatting.fields "img/\x7bid\x7d".toList = [{ name := "id".toList }] := by
    decide +kernel
  refine suits_of_plain ?_
  rw [htemplate, hfields]
  simp

/-- A template with a field that has no name passes the loader, and raises for every match. -/
theorem unnamed_field_raises :
    ¬∀ loads text rules raw url, loadRuleSet lineRe loads text = .ok rules →
    normalizeUrl webUrllib raw = .ok url →
      ∃ found, evaluateLoaded webUrllib asciiPython lineRe url rules = .ok found := by
  intro hall
  obtain ⟨url, hurl, hchecks⟩ := exists_ok_of_any
    (x := normalizeUrl webUrllib "http://images.example.org/a".toList)
    (P := fun url => (loadRuleSet lineRe (loadsRule "(?P<id>.+)" "\x7b\x7d")
      (ruleToml "(?P<id>.+)" "\x7b\x7d")).toOption.any
      fun rules => (evaluateLoaded webUrllib asciiPython lineRe url rules).toOption.isNone)
        (by decide +kernel)
  obtain ⟨rules, hrules, hraises⟩ := exists_ok_of_any hchecks
  obtain ⟨found, hfound⟩ := hall _ _ _ _ _ hrules hurl
  rw [hfound] at hraises
  cases hraises

end AssetStore
