import AssetStore.Fetcher.Images
import AssetStore.Lib.Formatting
import AssetStore.Lib.Regex.Scanning

/-! Rule sets that are configured: the loader of a TOML document, and the evaluation of the rules it
has accepted. The loader checks a pattern by a search in its text and a template by the names of its
fields; the evaluation matches the one and formats the other. -/

namespace AssetStore

open Lib

/-! ### `rules.py` -/

/-- The regular expressions of Python: how a pattern is read is known, and which patterns are
compiled then and what they match is not. What `re.compile` raises for a pattern is `re.error`, or
an exception of another kind. -/
structure Re where
  unicode : Regex.Unicode
  generates : Regex.Pattern → Bool
  raisesError : Text → Bool
  fullmatch : Regex.Pattern → Text → Option (Nat → Option Text)

/-- `re.compile`. -/
def Re.compile (re : Re) (pattern : Text) : Option Regex.Pattern :=
  (Regex.parse re.unicode pattern).filter re.generates

/-- `Match.groupdict`: what every named group has matched. -/
def groupdict (pattern : Regex.Pattern) (matched : Nat → Option Text) (name : Text) :
    Option (Option Text) :=
  (pattern.groupindex.lookup name).map matched

structure RegexRule where
  host : Text
  mirrorId : Text
  pattern : Regex.Pattern
  aliasTemplate : Text

/-- What the rule's pattern matches in a URL of its host. -/
def RegexRule.matched (re : Re) (rule : RegexRule) (url : NormalizedUrl) :
    Option (Nat → Option Text) :=
  if hostMatches url rule.host then re.fullmatch rule.pattern
    (['/'].intercalate url.pathSegments) else none

/-- `RegexRule.match`. -/
def RegexRule.matchUrl {O : Type} (py : Formatting.Python O) (re : Re) (rule : RegexRule)
    (url : NormalizedUrl) :
    Except Formatting.FormatError (Option RuleMatch) :=
  match rule.matched re url with
  | none => .ok none
  | some matched => do
    let tail ← Formatting.format py (Formatting.keywords (groupdict rule.pattern matched))
      rule.aliasTemplate
    return some { mirrorId := rule.mirrorId,
                  aliases := [if url.query = [] then tail else tail ++ '?' :: url.query] }

/-- A rule that the loader builds. -/
inductive ConfigRule
  | iiif (rule : IIIFImageRule)
  | passthrough (host mirrorId : Text)
  | regex (rule : RegexRule)

/-- `rule.match`. -/
def ConfigRule.matchUrl {O : Type} (lib : Urllib) (py : Formatting.Python O) (re : Re)
    (rule : ConfigRule)
    (url : NormalizedUrl) : Except Formatting.FormatError (Option RuleMatch) :=
  match rule with
  | .iiif rule => .ok (rule.matchUrl lib url)
  | .passthrough host mirrorId => .ok (hostPassthroughRule host mirrorId url)
  | .regex rule => rule.matchUrl py re url

/-- `RuleSet.evaluate` of a rule set that the loader returns. -/
def evaluateLoaded {O : Type} (lib : Urllib) (py : Formatting.Python O) (re : Re)
    (url : NormalizedUrl) :
    List ConfigRule → Except Formatting.FormatError (Option RuleMatch)
  | [] => .ok none
  | rule :: rules => do
    match ← rule.matchUrl lib py re url with
    | some found => return some found
    | none => evaluateLoaded lib py re url rules

/-! ### `config.py` -/

/-- A value of a TOML document; numbers, booleans and dates are never read. -/
inductive TomlValue
  | string (s : Text)
  | array (values : List TomlValue)
  | table (entries : List (Text × TomlValue))
  | other

abbrev TomlTable := List (Text × TomlValue)

/-- `table.get(key)`. -/
def tomlGet (table : TomlTable) (key : String) : Option TomlValue := table.lookup key.toList

/-- `RuleConfigError`, by what it is raised for. -/
inductive RuleConfigError
  | invalidToml
  | ruleNotArray
  | notTable (index : Nat)
  | notString (index : Nat) (key : String)
  | disallowed (index : Nat)
  | invalidRegex (index : Nat)
  | invalidTemplate (template : Text)
  | unknownGroups (index : Nat) (missing groups : List Text)
  | missingType (index : Nat)
  | pathPrefix (index : Nat)
  | unknownType (index : Nat) (ruleType : Text)
  deriving DecidableEq

/-- `repr(sorted(names))`. -/
def reprSorted (repr : Text → Text) (names : List Text) : Text :=
  '[' :: ", ".toList.intercalate ((names.mergeSort (· ≤ ·)).map repr) ++ [']']

/-- `rule[index]: ` and what is wrong with the rule. -/
def aboutRule (index : Nat) (text : Text) : Text :=
  "rule[".toList ++ showInt index ++ "]: ".toList ++ text

/-- The text of the error, where `exc` is the text of the exception behind it. -/
def RuleConfigError.message (repr : Text → Text) (exc : Text) : RuleConfigError → Text
  | .invalidToml => "invalid TOML: ".toList ++ exc
  | .ruleNotArray => "'rule' must be an array of tables ([[rule]])".toList
  | .notTable index => aboutRule index "must be a table".toList
  | .notString index key =>
    aboutRule index ("'".toList ++ key.toList ++ "' must be a non-empty string".toList)
  | .disallowed index =>
    aboutRule index
    ("'path_match' uses a disallowed construct (backreference or lookaround); ".toList ++
      "the regex subset is match/extract only".toList)
  | .invalidRegex index => aboutRule index ("invalid 'path_match' regex: ".toList ++ exc)
  | .invalidTemplate template =>
    "invalid alias_template ".toList ++ repr template ++ ": ".toList ++ exc
  | .unknownGroups index missing groups =>
    aboutRule index ("alias_template references unknown group(s) ".toList ++
      reprSorted repr missing ++ "; defined groups are ".toList ++ reprSorted repr groups)
  | .missingType index => aboutRule index "missing 'type'".toList
  | .pathPrefix index => aboutRule index "'path_prefix' must be a list of strings".toList
  | .unknownType index ruleType => aboutRule index ("unknown type ".toList ++ repr ruleType ++
      " (expected 'iiif', 'passthrough', or 'regex')".toList)

/-- What the loader raises: its own error, or one of `re.compile` that it does not expect. -/
inductive LoadError
  | config (e : RuleConfigError)
  | unexpected
  deriving DecidableEq

/-- `_require_str`. -/
def requireStr (rule : TomlTable) (key : String) (index : Nat) : Except LoadError Text :=
  match tomlGet rule key with
  | some (.string (c :: s)) => .ok (c :: s)
  | _ => .error (.config (.notString index key))

/-- A match of `_UNSAFE_REGEX` begins the text. -/
def unsafeStart : Text → Bool
  | '\\' :: c :: rest => "123456789".toList.contains c || c == 'g' && rest.head? == some '<'
  | '(' :: '?' :: '<' :: c :: _ => c == '=' || c == '!'
  | '(' :: '?' :: c :: _ => c == '=' || c == '!'
  | _ => false

/-- `_UNSAFE_REGEX.search`. -/
def unsafeRegex (pathMatch : Text) : Bool := pathMatch.tails.any unsafeStart

/-- `_template_fields`: a field without a name does not count. -/
def templateFields (template : Text) : Except LoadError (List Text) := do
  raiseIf ((Formatting.markups template).2 = false) (.config (.invalidTemplate template))
  return (((Formatting.fields template).map (·.name)).filter (· ≠ [])).dedup

/-- `_build_regex_rule`. -/
def buildRegexRule (re : Re) (rule : TomlTable) (index : Nat) : Except LoadError RegexRule := do
  let host ← requireStr rule "host" index
  let mirrorId ← requireStr rule "mirror_id" index
  let pathMatch ← requireStr rule "path_match" index
  let aliasTemplate ← requireStr rule "alias_template" index
  raiseIf (unsafeRegex pathMatch = true) (.config (.disallowed index))
  let pattern ← someOr (re.compile pathMatch)
    (if re.raisesError pathMatch then .config (.invalidRegex index) else .unexpected)
  let groups := pattern.groupindex.map (·.1)
  let fields ← templateFields aliasTemplate
  let missing := fields.filter (· ∉ groups)
  raiseIf (missing ≠ []) (.config (.unknownGroups index missing groups))
  return { host, mirrorId, pattern, aliasTemplate }

/-- A list of strings. -/
def stringsOf (values : List TomlValue) : Option (List Text) :=
  values.mapM fun
    | .string s => some s
    | _ => none

/-- `rule.get("path_prefix", ["iiif"])`, which must be a list of strings. -/
def pathPrefixOf (rule : TomlTable) : Option (List Text) :=
  match tomlGet rule "path_prefix" with
  | none => some ["iiif".toList]
  | some (.array values) => stringsOf values
  | some _ => none

/-- `_build_rule`. -/
def buildRule (re : Re) (rule : TomlTable) (index : Nat) : Except LoadError ConfigRule :=
  match tomlGet rule "type" with
  | some (.string ruleType) =>
    if ruleType = "iiif".toList then do
      let host ← requireStr rule "host" index
      let mirrorId ← requireStr rule "mirror_id" index
      let pathPrefix ← someOr (pathPrefixOf rule) (.config (.pathPrefix index))
      return .iiif { host, mirrorId, pathPrefix }
    else if ruleType = "passthrough".toList then do
      let host ← requireStr rule "host" index
      let mirrorId ← requireStr rule "mirror_id" index
      return .passthrough host mirrorId
    else if ruleType = "regex".toList then .regex <$> buildRegexRule re rule index
    else .error (.config (.unknownType index ruleType))
  | _ => .error (.config (.missingType index))

/-- The rules of an array, from `index` on. -/
def buildRules (re : Re) : List TomlValue → Nat → Except LoadError (List ConfigRule)
  | [], _ => .ok []
  | .table rule :: values, index => do
    let rule ← buildRule re rule index
    let rules ← buildRules re values (index + 1)
    return rule :: rules
  | _ :: _, index => .error (.config (.notTable index))

/-- `load_rule_set`, where `loads` is `tomllib.loads`. -/
def loadRuleSet (re : Re) (loads : Text → Option TomlTable) (text : Text) :
    Except LoadError (List ConfigRule) := do
  let document ← someOr (loads text) (.config .invalidToml)
  match tomlGet document "rule" with
  | none => return []
  | some (.array values) => buildRules re values 0
  | some _ => .error (.config .ruleNotArray)

/-! ### What is accepted -/

section Accepted

variable {re : Re} {rule : TomlTable} {index : Nat} {regexRule : RegexRule} {key : String}
  {s template : Text}

theorem requireStr_eq_ok :
    requireStr rule key index = .ok s ↔ tomlGet rule key = some (.string s) ∧ s ≠ [] := by
  unfold requireStr
  split
  · next c rest hget =>
    rw [hget]
    simp only [Except.ok.injEq, Option.some.injEq, TomlValue.string.injEq]
    constructor
    · rintro rfl
      exact ⟨rfl, List.cons_ne_nil _ _⟩
    · exact And.left
  · next hother =>
    simp only [reduceCtorEq, false_iff, not_and, not_not]
    intro hget
    cases s with
    | nil => rfl
    | cons c rest => exact absurd hget (hother c rest)

theorem templateFields_eq_ok {names : List Text} (h : templateFields template = .ok names) :
    (Formatting.markups template).2 = true ∧
      ∀ f ∈ Formatting.fields template, f.name ≠ [] → f.name ∈ names := by
  simp only [templateFields, except_bind_eq_ok, raiseIf_eq_ok, except_pure_eq_ok,
    Bool.not_eq_false] at h
  obtain ⟨-, hreads, rfl⟩ := h
  refine ⟨hreads, fun f hf hname => ?_⟩
  rw [List.mem_dedup, List.mem_filter]
  exact ⟨List.mem_map_of_mem hf, by simpa using hname⟩

/-- What the loader knows of a rule that it has built from a table. -/
structure RegexRule.Loaded (re : Re) (rule : TomlTable) (built : RegexRule) : Prop where
  pattern : ∃ pathMatch, tomlGet rule "path_match" = some (.string pathMatch) ∧
    unsafeRegex pathMatch = false ∧
    Regex.parse re.unicode pathMatch = some built.pattern
  template : (Formatting.markups built.aliasTemplate).2 = true
  names : ∀ f ∈ Formatting.fields built.aliasTemplate, f.name ≠ [] →
    f.name ∈ built.pattern.groupindex.map (·.1)

theorem buildRegexRule_loaded (h : buildRegexRule re rule index = .ok regexRule) :
    regexRule.Loaded re rule := by
  simp only [buildRegexRule, except_bind_eq_ok, raiseIf_eq_ok, requireStr_eq_ok, someOr_eq_ok,
    except_pure_eq_ok] at h
  obtain ⟨host, -, mirrorId, -, pathMatch, ⟨hpath, -⟩, aliasTemplate, -, -, hunsafe, pattern,
    hcompile, names, htemplate,
    -, hmissing, rfl⟩ := h
  obtain ⟨hreads, hnames⟩ := templateFields_eq_ok htemplate
  rw [not_not, List.filter_eq_nil_iff] at hmissing
  refine ⟨⟨pathMatch, hpath, by simpa using hunsafe, ?_⟩, hreads, fun f hf hname => ?_⟩
  · exact (Option.filter_eq_some_iff.mp hcompile).1
  · simpa using hmissing _ (hnames f hf hname)

theorem buildRule_loaded (h : buildRule re rule index = .ok (.regex regexRule)) :
    regexRule.Loaded re rule := by
  unfold buildRule at h
  split at h
  · split at h
    · simp at h
    split at h
    · simp at h
    split at h
    · obtain ⟨built, hbuilt, heq⟩ := except_map_eq_ok.mp h
      obtain rfl := ConfigRule.regex.inj heq
      exact buildRegexRule_loaded hbuilt
    · cases h
  · cases h

theorem buildRules_loaded {values : List TomlValue} {rules : List ConfigRule}
    (h : buildRules re values index = .ok rules)
    (hmem : .regex regexRule ∈ rules) :
    ∃ rule, .table rule ∈ values ∧ regexRule.Loaded re rule := by
  induction values generalizing index rules with
  | nil =>
    obtain rfl := Except.ok.inj h
    cases hmem
  | cons value values ih =>
    cases value with
    | table rule =>
      simp only [buildRules, except_bind_eq_ok, except_pure_eq_ok] at h
      obtain ⟨built, hbuilt, rest, hrest, rfl⟩ := h
      rcases List.mem_cons.mp hmem with rfl | hmem
      · exact ⟨rule, List.mem_cons_self, buildRule_loaded hbuilt⟩
      · obtain ⟨rule', hrule', hloaded⟩ := ih hrest hmem
        exact ⟨rule', List.mem_cons_of_mem _ hrule', hloaded⟩
    | string | array | other => cases h

/-- Every regex rule of a rule set that is accepted was built from a table of its document. -/
theorem loadRuleSet_loaded {loads : Text → Option TomlTable} {text : Text} {rules : List ConfigRule}
    (h : loadRuleSet re loads text = .ok rules) (hmem : .regex regexRule ∈ rules) :
    ∃ rule, regexRule.Loaded re rule := by
  simp only [loadRuleSet, except_bind_eq_ok] at h
  obtain ⟨document, -, h⟩ := h
  split at h
  · obtain rfl := Except.ok.inj h
    cases hmem
  · obtain ⟨rule, -, hloaded⟩ := buildRules_loaded h hmem
    exact ⟨rule, hloaded⟩
  · cases h

end Accepted

/-! ### What is rejected -/

section Rejected

variable {re : Re} {rule : TomlTable} {index : Nat} {e : RuleConfigError} {key : String}

/-- The text of the error names the rule, or the template that cannot be read. -/
def RuleConfigError.Blames (e : RuleConfigError) (index : Nat) : Prop :=
  (∃ template, e = .invalidTemplate template) ∨
    ∀ repr exc, ∃ rest, e.message repr exc = aboutRule index rest

theorem requireStr_blames (h : requireStr rule key index = .error (.config e)) :
    e.Blames index := by
  unfold requireStr at h
  split at h
  · cases h
  · obtain rfl := LoadError.config.inj (Except.error.inj h)
    exact .inr fun _ _ => ⟨_, rfl⟩

theorem buildRegexRule_blames (h : buildRegexRule re rule index = .error (.config e)) :
    e.Blames index := by
  simp only [buildRegexRule, templateFields, except_bind_eq_error, raiseIf_eq_error,
    someOr_eq_error, except_pure_ne_error, and_false, exists_false, or_false] at h
  rcases h with h | ⟨_, -, h | ⟨_, -, h | ⟨_, -, h | ⟨_, -, ⟨-, h⟩ | ⟨_, -, ⟨-, h⟩ |
    ⟨_, -, ⟨-, h⟩ | ⟨_, -, -, h⟩⟩⟩⟩⟩⟩⟩
  iterate 4 exact requireStr_blames h
  · obtain rfl := LoadError.config.inj h
    exact .inr fun _ _ => ⟨_, rfl⟩
  · split at h
    · obtain rfl := LoadError.config.inj h
      exact .inr fun _ _ => ⟨_, rfl⟩
    · cases h
  · exact .inl ⟨_, (LoadError.config.inj h).symm⟩
  · obtain rfl := LoadError.config.inj h
    exact .inr fun _ _ => ⟨_, rfl⟩

theorem buildRule_blames (h : buildRule re rule index = .error (.config e)) : e.Blames index := by
  unfold buildRule at h
  split at h
  · split at h
    · simp only [except_bind_eq_error, someOr_eq_error, except_pure_ne_error, and_false,
        exists_false, or_false] at h
      rcases h with h | ⟨_, -, h | ⟨_, -, -, h⟩⟩
      · exact requireStr_blames h
      · exact requireStr_blames h
      · obtain rfl := LoadError.config.inj h
        exact .inr fun _ _ => ⟨_, rfl⟩
    split at h
    · simp only [except_bind_eq_error, except_pure_ne_error, and_false, exists_false,
        or_false] at h
      rcases h with h | ⟨_, -, h⟩
      · exact requireStr_blames h
      · exact requireStr_blames h
    split at h
    · cases hbuilt : buildRegexRule re rule index with
      | ok built =>
        rw [hbuilt] at h
        cases h
      | error e' =>
        rw [hbuilt] at h
        obtain rfl : e' = .config e := Except.error.inj h
        exact buildRegexRule_blames hbuilt
    · obtain rfl := LoadError.config.inj (Except.error.inj h)
      exact .inr fun _ _ => ⟨_, rfl⟩
  · obtain rfl := LoadError.config.inj (Except.error.inj h)
    exact .inr fun _ _ => ⟨_, rfl⟩

theorem buildRules_blames {values : List TomlValue}
    (h : buildRules re values index = .error (.config e)) :
    ∃ k, index ≤ k ∧ k < index + values.length ∧ e.Blames k := by
  induction values generalizing index with
  | nil => cases h
  | cons value values ih =>
    cases value with
    | table rule =>
      simp only [buildRules, except_bind_eq_error, except_pure_ne_error, and_false, exists_false,
        or_false] at h
      rcases h with h | ⟨_, -, h⟩
      · exact ⟨index, le_rfl, by simp, buildRule_blames h⟩
      · obtain ⟨k, hfrom, hto, hblames⟩ := ih h
        refine ⟨k, by omega, ?_, hblames⟩
        simp only [List.length_cons]
        omega
    | string | array | other =>
      obtain rfl := LoadError.config.inj (Except.error.inj h)
      exact ⟨index, le_rfl, by simp, .inr fun _ _ => ⟨_, rfl⟩⟩

/-- A rule set that is rejected is no document with an array of rules, or the error names one of its
rules or the template of one. -/
theorem loadRuleSet_blames {loads : Text → Option TomlTable} {text : Text}
    (h : loadRuleSet re loads text = .error (.config e)) :
    e = .invalidToml ∨ e = .ruleNotArray ∨ ∃ document values index, loads text = some document ∧
      tomlGet document "rule" = some (.array values) ∧ index < values.length ∧ e.Blames index := by
  simp only [loadRuleSet, except_bind_eq_error, someOr_eq_error, someOr_eq_ok] at h
  rcases h with ⟨-, h⟩ | ⟨document, hloads, h⟩
  · exact .inl (LoadError.config.inj h).symm
  · split at h
    · cases h
    · rename_i values hrule
      obtain ⟨k, -, hto, hblames⟩ := buildRules_blames h
      exact .inr (.inr ⟨document, values, k, hloads, hrule, by omega, hblames⟩)
    · exact .inr (.inl (LoadError.config.inj (Except.error.inj h)).symm)

end Rejected

end AssetStore
