import AssetStore.Fetcher.RuleConfig

/-! The safe subset of regular expressions. The loader searches a pattern's text for lookaround and
for two spellings of a backreference; a third one, the named backreference, is what the search
misses. -/

namespace AssetStore

open Lib

section Filter

variable {pathMatch : Text} {tokens : List Regex.Token}

/-- The search finds in the text what begins with unsafe tokens. -/
theorem unsafeStart_text (h : Regex.startsUnsafe tokens = true) :
    unsafeStart (tokens.flatMap Regex.Token.text) = true := by
  unfold Regex.startsUnsafe at h
  split at h
  · next c rest =>
    simp only [Bool.and_eq_true, bne_iff_ne, ne_eq] at h
    have hdigit : "123456789".toList.contains c = true := by
      have hmem : c ∈ "0123456789".toList := by simpa [Regex.isDigit] using h.1
      have hcons : "0123456789".toList = '0' :: "123456789".toList := by decide
      rw [hcons, List.mem_cons] at hmem
      simpa using hmem.resolve_left h.2
    simp only [List.flatMap_cons, Regex.Token.text, List.cons_append, unsafeStart, hdigit,
      Bool.true_or]
  · rfl
  · rfl
  · rfl
  · rfl
  · cases h

/-- A pattern in which the search finds nothing has no tokens of lookaround or of a reference by
number. -/
theorem clean_of_unsafeRegex (htokens : Regex.tokenize pathMatch = some tokens)
    (h : unsafeRegex pathMatch = false) :
    Regex.Clean tokens := by
  rintro rest ⟨before, rfl⟩
  by_contra hunsafe
  have hstart : unsafeStart (rest.flatMap Regex.Token.text) = true :=
    unsafeStart_text (by simpa using hunsafe)
  have hsuffix : rest.flatMap Regex.Token.text <:+ pathMatch := by
    rw [Regex.text_of_tokenize htokens, List.flatMap_append]
    exact List.suffix_append _ _
  have hfound : unsafeRegex pathMatch = true :=
    List.any_eq_true.mpr ⟨_, (List.mem_tails _ _).mpr hsuffix, hstart⟩
  rw [h] at hfound
  cases hfound

end Filter

/-! ### Accepted patterns -/

section Accepted

variable {re : Re} {rule : TomlTable} {index : Nat} {built : RegexRule} {pathMatch : Text}

/-- The pattern of a rule that is accepted has no lookaround and no backreference unless it names a
group where an item may stand. -/
theorem accepted_safe_iff (h : buildRegexRule re rule index = .ok built)
    (hpath : tomlGet rule "path_match" = some (.string pathMatch)) :
    Regex.parse re.unicode pathMatch = some built.pattern ∧
      (built.pattern.tree.safe = true ↔ Regex.namesReference pathMatch = false) := by
  obtain ⟨text, htext, hunsafe, hparse⟩ := (buildRegexRule_loaded h).pattern
  rw [hpath] at htext
  obtain rfl := TomlValue.string.inj (Option.some.inj htext)
  refine ⟨hparse, ?_⟩
  obtain ⟨tokens, htokens, -⟩ := Option.bind_eq_some_iff.mp hparse
  exact Regex.parse_safe hparse htokens (clean_of_unsafeRegex htokens hunsafe)

end Accepted

/-! ### Patterns of ASCII -/

/-- `str.isidentifier` of ASCII text. -/
def asciiIdentifier (name : Text) : Bool :=
  name.head?.any (fun c => c.isAlpha || c == '_') && name.all fun c => c.isAlphanum || c == '_'

/-- Regular expressions for patterns of ASCII, without names of characters. -/
def asciiRe (fullmatch : Regex.Pattern → Text → Option (Nat → Option Text)) : Re where
  unicode := { isIdentifier := asciiIdentifier, lookup := fun _ => none }
  generates _ := true
  raisesError _ := true
  fullmatch

/-- The table of a regex rule. -/
def regexTable (pathMatch aliasTemplate : String) : TomlTable :=
  [("type".toList, .string "regex".toList), ("host".toList, .string "images.example.org".toList),
    ("mirror_id".toList, .string "example".toList), ("path_match".toList, .string pathMatch.toList),
    ("alias_template".toList, .string aliasTemplate.toList)]

/-- A rule that extracts one segment of a path. -/
theorem accepted_safe_segment : ∃ built,
    buildRegexRule (asciiRe fun _ _ => none)
      (regexTable "^img/(?P<id>[^/]+)$" "img/\x7bid\x7d") 0 = .ok built ∧
      built.pattern.tree.safe = true := by
  obtain ⟨built, hbuilt, -⟩ := exists_ok_of_any (P := fun _ => true)
    (x := buildRegexRule (asciiRe fun _ _ => none)
      (regexTable "^img/(?P<id>[^/]+)$" "img/\x7bid\x7d") 0)
    (by decide +kernel)
  exact ⟨built, hbuilt, (accepted_safe_iff hbuilt rfl).2.mpr (by decide +kernel)⟩

/-- A named backreference passes the loader. -/
theorem accepted_named_reference : ¬∀ rule index built pathMatch,
    buildRegexRule (asciiRe fun _ _ => none) rule index = .ok built →
      tomlGet rule "path_match" = some (.string pathMatch) →
        ∀ p, Regex.parse (asciiRe fun _ _ => none).unicode pathMatch = some p →
          p.tree.safe = true := by
  intro hall
  obtain ⟨built, hbuilt, hsafe⟩ := exists_ok_of_any (P := fun built => !built.pattern.tree.safe)
    (x := buildRegexRule (asciiRe fun _ _ => none) (regexTable "(?P<a>x)(?P=a)" "\x7ba\x7d") 0)
      (by decide +kernel)
  obtain ⟨pathMatch, hpath, -, hparse⟩ := (buildRegexRule_loaded hbuilt).pattern
  rw [hall _ _ _ _ hbuilt hpath _ hparse] at hsafe
  cases hsafe

end AssetStore
