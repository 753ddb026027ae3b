import Mathlib.Data.List.TakeWhile
import AssetStore.Lib.Fallible

/-! The format strings of Python 3.12: what `string.Formatter().parse` reads of one, and what
`str.format` makes of it with keyword arguments only. A replacement field has a name, a conversion
and a specification, and the specification may have fields of its own. Memory is unlimited. -/

namespace AssetStore.Lib.Formatting

/-! ### Markup -/

/-- A replacement field. The conversion is the null character when there is none. -/
structure Field where
  name : List Char
  conversion : Char := '\x00'
  spec : List Char := []
  nested : Bool := false
  deriving DecidableEq, Repr

/-- The name of a field, the character that ends it, and the rest. Between brackets nothing ends
it. -/
def readName (bracket : Bool) : List Char → Option (List Char × Char × List Char)
  | [] => none
  | c :: rest =>
    if bracket then (readName (c != ']') rest).map fun p => (c :: p.1, p.2)
    else if c = '\x7b' then none
    else if c = '\x7d' ∨ c = ':' ∨ c = '!' then some ([], c, rest)
    else (readName (c == '[') rest).map fun p => (c :: p.1, p.2)

/-- A specification up to its closing brace, after `depth` braces that were opened within, and
whether any was. -/
def readSpec (depth : Nat) : List Char → Option ((List Char × Bool) × List Char)
  | [] => none
  | c :: rest =>
    if c = '\x7b' then (readSpec (depth + 1) rest).map fun p => ((c :: p.1.1, true), p.2)
    else if c = '\x7d' then
      match depth with
      | 0 => some (([], false), rest)
      | depth + 1 => (readSpec depth rest).map fun p => ((c :: p.1.1, p.1.2), p.2)
    else (readSpec depth rest).map fun p => ((c :: p.1.1, p.1.2), p.2)

/-- The field with the specification that follows. -/
def readTail (name : List Char) (conversion : Char) (s : List Char) :
    Option (Field × List Char) := do
  let ((spec, nested), rest) ← readSpec 0 s
  return ({ name, conversion, spec, nested }, rest)

/-- `parse_field`. -/
def readField (s : List Char) : Option (Field × List Char) := do
  let (name, stop, rest) ← readName false s
  if stop = '\x7d' then return ({ name }, rest)
  else if stop = ':' then readTail name '\x00' rest
  else
    match rest with
    | [] => none
    | conversion :: rest =>
      match rest with
      | '\x7d' :: rest => return ({ name, conversion }, rest)
      | ':' :: rest => readTail name conversion rest
      | _ => none

def isBrace (c : Char) : Bool := c == '\x7b' || c == '\x7d'

/-- `MarkupIterator_next`: a literal, and the field after it. A brace that is doubled stands for
itself. -/
def readMarkup (s : List Char) : Option ((List Char × Option Field) × List Char) :=
  let literal := s.takeWhile fun c => !isBrace c
  match s.dropWhile fun c => !isBrace c with
  | [] => some ((literal, none), [])
  | [_] => none
  | c :: d :: rest =>
    if c = d then some ((literal ++ [c], none), rest)
    else if c = '\x7d' then none
    else (readField (d :: rest)).map fun p => ((literal, some p.1), p.2)

theorem readName_length {bracket : Bool} {s : List Char} {p : List Char × Char × List Char}
    (h : readName bracket s = some p) :
    p.2.2.length < s.length := by
  induction s generalizing bracket p with
  | nil => cases h
  | cons c rest ih =>
    have hmore : ∀ {bracket}, (readName bracket rest).map (fun p => (c :: p.1, p.2)) = some p →
        p.2.2.length < (c :: rest).length := by
      intro bracket heq
      obtain ⟨q, hq, rfl⟩ := Option.map_eq_some_iff.mp heq
      have hlt := ih hq
      exact Nat.lt_trans hlt (Nat.lt_succ_self _)
    rw [readName] at h
    split at h
    · exact hmore h
    split at h
    · cases h
    split at h
    · obtain rfl := Option.some.inj h
      exact Nat.lt_succ_self _
    · exact hmore h

theorem readSpec_length {depth : Nat} {s : List Char} {p : (List Char × Bool) × List Char}
    (h : readSpec depth s = some p) : p.2.length < s.length := by
  induction s generalizing depth p with
  | nil => cases h
  | cons c rest ih =>
    have hmore : ∀ {depth} {f : List Char × Bool → List Char × Bool},
        (readSpec depth rest).map (fun p => (f p.1, p.2)) = some p →
          p.2.length < (c :: rest).length := by
      intro depth f heq
      obtain ⟨q, hq, rfl⟩ := Option.map_eq_some_iff.mp heq
      have hlt := ih hq
      exact Nat.lt_trans hlt (Nat.lt_succ_self _)
    rw [readSpec.eq_def] at h
    dsimp only at h
    split at h
    · exact @hmore _ (fun q => (c :: q.1, true)) h
    split at h
    · split at h
      · obtain rfl := Option.some.inj h
        exact Nat.lt_succ_self _
      · exact @hmore _ (fun q => (c :: q.1, q.2)) h
    · exact @hmore _ (fun q => (c :: q.1, q.2)) h

theorem readTail_length {name s : List Char} {conversion : Char} {p : Field × List Char}
    (h : readTail name conversion s = some p) : p.2.length < s.length := by
  obtain ⟨q, hq, h⟩ := Option.bind_eq_some_iff.mp h
  obtain rfl := Option.some.inj h
  exact readSpec_length hq

theorem readField_length {s : List Char} {p : Field × List Char} (h : readField s = some p) :
    p.2.length < s.length := by
  obtain ⟨⟨name, stop, rest⟩, hname, h⟩ := Option.bind_eq_some_iff.mp h
  have hlt : rest.length < s.length := readName_length hname
  dsimp only at h
  split at h
  · obtain rfl := Option.some.inj h
    exact hlt
  split at h
  · exact Nat.lt_trans (readTail_length h) hlt
  split at h
  · cases h
  simp only [List.length_cons] at hlt
  split at h
  · obtain rfl := Option.some.inj h
    simp only [List.length_cons] at hlt ⊢
    omega
  · have htail := readTail_length h
    simp only [List.length_cons] at hlt
    omega
  · cases h

theorem readMarkup_length {s : List Char} {p : (List Char × Option Field) × List Char} (hs : s ≠ [])
    (h : readMarkup s = some p) : p.2.length < s.length := by
  have hpos : 0 < s.length := List.length_pos_iff.mpr hs
  have hdrop : (s.dropWhile fun c => !isBrace c).length ≤ s.length :=
    (List.dropWhile_suffix _).length_le
  unfold readMarkup at h
  dsimp only at h
  split at h
  · obtain rfl := Option.some.inj h
    exact hpos
  · cases h
  next c d rest heq =>
  rw [heq] at hdrop
  simp only [List.length_cons] at hdrop
  split at h
  · obtain rfl := Option.some.inj h
    dsimp only
    omega
  split at h
  · cases h
  · obtain ⟨q, hq, rfl⟩ := Option.map_eq_some_iff.mp h
    have hfield := readField_length hq
    simp only [List.length_cons] at hfield
    dsimp only
    omega

/-- What the iterator yields, and whether it comes to the end of the string. -/
def markups (s : List Char) : List (List Char × Option Field) × Bool :=
  match s with
  | [] => ([], true)
  | c :: rest =>
    match _h : readMarkup (c :: rest) with
    | none => ([], false)
    | some (markup, rest') => (markup :: (markups rest').1, (markups rest').2)
termination_by s.length
decreasing_by
  all_goals exact readMarkup_length (by simp) _h

/-- The fields of a format string, in their order. -/
def fields (s : List Char) : List Field := (markups s).1.filterMap Prod.snd

/-! ### Specifications -/

/-- `sys.maxsize`. -/
def maxSize : Nat := 9223372036854775807

/-- What a specification may say. -/
structure Spec where
  fill : Char
  align : Char
  sign : Option Char
  noNegativeZero : Bool
  alternate : Bool
  width : Option Nat
  thousands : Option Char
  precision : Option Nat
  type : Char

def isAlign (c : Char) : Bool := "<>=^".toList.contains c

/-- The first character, if it is of a kind. -/
def takeIf (kind : Char → Bool) : List Char → Option Char × List Char
  | [] => (none, [])
  | c :: rest => if kind c then (some c, rest) else (none, c :: rest)

/-- The alignment, perhaps after a fill character. -/
def readAlign : List Char → (Option Char × Option Char) × List Char
  | c :: d :: rest =>
    if isAlign d then ((some c, some d), rest)
    else if isAlign c then ((none, some c), d :: rest) else ((none, none), c :: d :: rest)
  | [c] => if isAlign c then ((none, some c), []) else ((none, none), [c])
  | [] => ((none, none), [])

/-- A number that may not be greater than `sys.maxsize`, after the digits with the value `n`. -/
def readNumber (decimal : Char → Option Nat) (n : Nat) : List Char → Option (Nat × List Char)
  | [] => some (n, [])
  | c :: rest =>
    match decimal c with
    | none => some (n, c :: rest)
    | some d => if maxSize < 10 * n + d then none else readNumber decimal (10 * n + d) rest

/-- A number that may be left out. -/
def readInteger (decimal : Char → Option Nat) (s : List Char) :
    Option (Option Nat × List Char) := do
  let (n, rest) ← readNumber decimal 0 s
  return (if rest.length = s.length then none else some n, rest)

/-- The separator of thousands, of which there may be one. -/
def readThousands (s : List Char) : Option (Option Char × List Char) :=
  match s with
  | ',' :: '_' :: _ => none
  | '_' :: ',' :: _ => none
  | ',' :: rest => some (some ',', rest)
  | '_' :: rest => some (some '_', rest)
  | rest => some (none, rest)

/-- The precision after a dot. -/
def readPrecision (decimal : Char → Option Nat) (s : List Char) : Option (Option Nat × List Char) :=
  match s with
  | '.' :: rest => do
    let (precision, rest) ← readInteger decimal rest
    guard (precision ≠ none)
    return (precision, rest)
  | rest => some (none, rest)

/-- The types whose numbers may have a separator of thousands. -/
def separates (thousands : Option Char) (type : Char) : Bool :=
  match thousands with
  | none => true
  | some c => "defgEG%F\x00".toList.contains type || (c == '_' && "boxX".toList.contains type)

/-- `parse_internal_render_format_spec` for a string. -/
def specOf (decimal : Char → Option Nat) (s : List Char) : Option Spec := do
  let ((fill, align), s) := readAlign s
  let (sign, s) := takeIf (fun c => " +-".toList.contains c) s
  let (zero, s) := takeIf (· == 'z') s
  let (alternate, s) := takeIf (· == '#') s
  let (padding, s) := if fill.isSome then (none, s) else takeIf (· == '0') s
  let (width, s) ← readInteger decimal s
  let (thousands, s) ← readThousands s
  let (precision, s) ← readPrecision decimal s
  guard (s.length ≤ 1)
  let type := s.headD 's'
  guard (separates thousands type)
  return { fill := fill.getD (padding.getD ' '), align := align.getD '<', sign,
           noNegativeZero := zero.isSome
           alternate := alternate.isSome, width, thousands, precision, type }

/-- What a specification of a string may say. -/
def Spec.ofText (f : Spec) : Bool :=
  f.type == 's' && f.sign == none && !f.noNegativeZero && !f.alternate && f.align != '='

/-- `format_string_internal`. -/
def Spec.pad (f : Spec) (value : List Char) : List Char :=
  let kept := value.take (f.precision.getD value.length)
  let missing := f.width.getD 0 - kept.length
  let before := if f.align = '>' then missing else if f.align = '^' then missing / 2 else 0
  List.replicate before f.fill ++ kept ++ List.replicate (missing - before) f.fill

/-- A specification with which strings can be formatted. -/
def fitsText (decimal : Char → Option Nat) (spec : List Char) : Bool :=
  spec.isEmpty || (specOf decimal spec).any Spec.ofText

/-- `format(value, spec)`. -/
def formatText (decimal : Char → Option Nat) (value spec : List Char) : Option (List Char) :=
  if spec = [] then some value
  else do
    let f ← specOf decimal spec
    guard f.ofText
    return f.pad value

theorem formatText_eq_some {decimal : Char → Option Nat} {value spec : List Char} :
    (∃ text, formatText decimal value spec = some text) ↔ fitsText decimal spec = true := by
  unfold formatText fitsText
  by_cases hnil : spec = []
  · simp [hnil]
  · rw [if_neg hnil, List.isEmpty_eq_false_iff.mpr hnil, Bool.false_or]
    cases hspec : specOf decimal spec with
    | none => simp
    | some f =>
      constructor
      · rintro ⟨text, htext⟩
        exact (guarded_eq_some.mp htext).1
      · intro hf
        exact ⟨_, guarded_eq_some.mpr ⟨hf, rfl⟩⟩

/-! ### Values -/

inductive FormatError
  | valueError
  | keyError
  | indexError
  | typeError
  | attributeError
  | other
  deriving DecidableEq, Repr

/-- What a field stands for: a string, `None`, or another object that one of these leads to. -/
inductive Value (O : Type)
  | text (s : List Char)
  | none
  | object (o : O)

/-- What formatting asks of Python: the digit that a character is, how a string is written by `repr`
and `ascii`, the attributes and items of a value, and how an object is converted and formatted. -/
structure Python (O : Type) where
  decimal : Char → Option Nat
  repr : List Char → List Char
  ascii : List Char → List Char
  getattr : Value O → List Char → Except FormatError (Value O)
  getitem : Value O → Nat ⊕ List Char → Except FormatError (Value O)
  convertObject : Char → O → Except FormatError (List Char)
  formatObject : O → List Char → Except FormatError (List Char)

section Evaluation

variable {O : Type} (py : Python O)

/-- The number that a name is, after the digits with the value `n`. -/
def nameNumber (decimal : Char → Option Nat) (n : Nat) : List Char → Except FormatError (Option Nat)
  | [] => .ok (some n)
  | c :: rest =>
    match decimal c with
    | none => .ok none
    | some d =>
      if maxSize / 10 < n then .error .valueError else nameNumber decimal (10 * n + d) rest

/-- `get_integer` of a name. -/
def nameIndex (decimal : Char → Option Nat) (name : List Char) : Except FormatError (Option Nat) :=
  if name = [] then .ok none else nameNumber decimal 0 name

/-- An attribute or an item follows. -/
def isStep (c : Char) : Bool := c == '.' || c == '['

/-- The attributes and items after the first part of a field name. -/
def access (v : Value O) (s : List Char) : Except FormatError (Value O) :=
  match s with
  | [] => .ok v
  | c :: rest =>
    if c = '.' then do
      raiseIf (rest.takeWhile (!isStep ·) = []) .valueError
      let v ← py.getattr v (rest.takeWhile (!isStep ·))
      access v (rest.dropWhile (!isStep ·))
    else if c = '[' then
      match _h : rest.dropWhile (· != ']') with
      | [] => .error .valueError
      | _ :: rest' => do
        let name := rest.takeWhile (· != ']')
        let index ← nameIndex py.decimal name
        raiseIf (name = []) .valueError
        let v ← py.getitem v (index.elim (.inr name) .inl)
        access v rest'
    else .error .valueError
termination_by s.length
decreasing_by
  · have hle : (rest.dropWhile (!isStep ·)).length ≤ rest.length :=
      (List.dropWhile_suffix _).length_le
    simp only [List.length_cons]
    omega
  · have hle : (rest.dropWhile (· != ']')).length ≤ rest.length :=
      (List.dropWhile_suffix _).length_le
    rw [_h] at hle
    simp only [List.length_cons] at hle ⊢
    omega

/-- `get_field_object`. There are no positional arguments, so a number finds none. -/
def getField (kwargs : List Char → Option (Value O)) (name : List Char) :
    Except FormatError (Value O) := do
  let first := name.takeWhile (!isStep ·)
  let index ← nameIndex py.decimal first
  raiseIf (first = [] ∨ index ≠ none) .indexError
  let v ← someOr (kwargs first) .keyError
  access py v (name.dropWhile (!isStep ·))

def isConversion (c : Char) : Bool := "rsa".toList.contains c

/-- A string as `repr`, `ascii` or `str` writes it. -/
def written (conversion : Char) (s : List Char) : List Char :=
  if conversion = 'r' then py.repr s else if conversion = 'a' then py.ascii s else s

/-- `do_conversion`. -/
def convert (conversion : Char) (v : Value O) : Except FormatError (Value O) :=
  if conversion = '\x00' then .ok v
  else if isConversion conversion = false then .error .valueError
  else
    match v with
    | .text s => .ok (.text (written py conversion s))
    | .none => .ok (.text "None".toList)
    | .object o => .text <$> py.convertObject conversion o

/-- `render_field`. -/
def render (v : Value O) (spec : List Char) : Except FormatError (List Char) :=
  match v with
  | .text s => someOr (formatText py.decimal s spec) .valueError
  | .none => if spec = [] then .ok "None".toList else .error .typeError
  | .object o => py.formatObject o spec

/-- The specification of a field, where `expand` replaces the fields in it. -/
def specText (expand : List Char → Except FormatError (List Char)) (f : Field) :
    Except FormatError (List Char) :=
  if f.nested then expand f.spec else .ok f.spec

/-- `output_markup`. -/
def outputField (expand : List Char → Except FormatError (List Char))
    (kwargs : List Char → Option (Value O))
    (f : Field) : Except FormatError (List Char) := do
  let v ← getField py kwargs f.name
  let v ← convert py f.conversion v
  let spec ← specText expand f
  render py v spec

def outputMarkup (expand : List Char → Except FormatError (List Char))
    (kwargs : List Char → Option (Value O))
    (markup : List Char × Option Field) : Except FormatError (List Char) :=
  match markup.2 with
  | none => .ok markup.1
  | some f => (markup.1 ++ ·) <$> outputField py expand kwargs f

/-- `build_string`, which may be called within itself `depth` times. -/
def buildString (kwargs : List Char → Option (Value O)) :
    Nat → List Char → Except FormatError (List Char)
  | 0, _ => .error .valueError
  | depth + 1, s => do
    let texts ← (markups s).1.mapM (outputMarkup py (buildString kwargs depth) kwargs)
    raiseIf ((markups s).2 = false) .valueError
    return texts.flatten

/-- `s.format(**kwargs)`. -/
def format (kwargs : List Char → Option (Value O)) (s : List Char) :
    Except FormatError (List Char) :=
  buildString py kwargs 2 s

end Evaluation

/-! ### Formatting without an exception -/

/-- The value of a group, which may not have taken part in a match. -/
def Value.ofOption {O : Type} : Option (List Char) → Value O
  | .some s => .text s
  | .none => .none

section Suits

variable {O : Type} (py : Python O) (groups : List Char → Option (Option (List Char)))

/-- The keyword arguments. -/
def keywords (name : List Char) : Option (Value O) := (groups name).map Value.ofOption

/-- A name that is looked up as it stands: it is no number, and no attribute or item follows. -/
structure PlainName (name : List Char) : Prop where
  steps : ∀ c ∈ name, isStep c = false
  start : ∃ c rest, name = c :: rest ∧ py.decimal c = none

/-- The field names a group, its conversion is known, and its specification is one for strings;
without a conversion a group that took no part has none. -/
structure Suits (f : Field) : Prop where
  named : f.name ≠ []
  converts : f.conversion = '\x00' ∨ isConversion f.conversion = true
  spec : ∃ spec, specText (buildString py (keywords groups) 1) f = .ok spec ∧
    (spec = [] ∨ fitsText py.decimal spec = true ∧
      (f.conversion ≠ '\x00' ∨ groups f.name ≠ some none))

variable {py} {groups}

theorem getField_nil {kwargs : List Char → Option (Value O)} :
    getField py kwargs [] = .error .indexError := rfl

theorem getField_plain {kwargs : List Char → Option (Value O)} {name : List Char}
    (h : PlainName py name) :
    getField py kwargs name = someOr (kwargs name) .keyError := by
  have htake : name.takeWhile (!isStep ·) = name :=
    List.takeWhile_eq_self_iff.mpr fun c hc => by simp [h.steps c hc]
  have hdrop : name.dropWhile (!isStep ·) = [] :=
    List.dropWhile_eq_nil_iff.mpr fun c hc => by simp [h.steps c hc]
  obtain ⟨c, rest, rfl, hdecimal⟩ := h.start
  have hindex : nameIndex py.decimal (c :: rest) = .ok none := by
    simp [nameIndex, nameNumber, hdecimal]
  rw [getField, htake, hdrop, hindex]
  cases kwargs (c :: rest) with
  | none => rfl
  | some v =>
    simp [someOr, raiseIf, bind, Except.bind, access]

theorem convert_returns {c : Char} (v : Option (List Char))
    (hc : c = '\x00' ∨ isConversion c = true) :
    ∃ w, convert py c (.ofOption v) = .ok (.ofOption w) ∧ (w = none ↔ c = '\x00' ∧ v = none) := by
  unfold convert
  by_cases hnull : c = '\x00'
  · exact ⟨v, by rw [if_pos hnull], by simp [hnull]⟩
  · have hletter : ¬isConversion c = false := by
      simpa [hnull] using hc
    rw [if_neg hnull, if_neg hletter]
    cases v with
    | none => exact ⟨"None".toList, rfl, by simp [hnull]⟩
    | some s => exact ⟨written py c s, rfl, by simp⟩

theorem convert_raises {c : Char} {v : Value O} (hc : ¬(c = '\x00' ∨ isConversion c = true)) :
    convert py c v = .error .valueError := by
  rw [not_or, Bool.not_eq_true] at hc
  unfold convert
  rw [if_neg hc.1, if_pos hc.2]

theorem render_returns {v : Option (List Char)} {spec : List Char} :
    (∃ text, render py (.ofOption v) spec = .ok text) ↔
      spec = [] ∨ fitsText py.decimal spec = true ∧ v ≠ none := by
  cases v with
  | none =>
    simp only [render, Value.ofOption]
    by_cases hspec : spec = [] <;> simp [hspec]
  | some s =>
    have hnil : spec = [] → fitsText py.decimal spec = true := by
      rintro rfl
      rfl
    calc (∃ text, render py (.ofOption (some s)) spec = .ok text)
        ↔ ∃ text, formatText py.decimal s spec = some text := by
          simp only [render, Value.ofOption, someOr_eq_ok]
      _ ↔ fitsText py.decimal spec = true := formatText_eq_some
      _ ↔ spec = [] ∨ fitsText py.decimal spec = true ∧ some s ≠ none := by
          simp only [ne_eq, reduceCtorEq, not_false_eq_true, and_true]
          exact ⟨.inr, fun h => h.elim hnil id⟩

/-- A field that names a group. -/
theorem outputField_returns {f : Field} {v : Option (List Char)} (hname : PlainName py f.name)
    (hv : groups f.name = some v) :
    (∃ text, outputField py (buildString py (keywords groups) 1) (keywords groups) f = .ok text) ↔
      Suits py groups f := by
  have hfield : getField py (keywords groups) f.name = .ok (.ofOption v) := by
    rw [getField_plain hname, keywords, hv]
    rfl
  have hnamed : f.name ≠ [] := by
    obtain ⟨c, rest, heq, -⟩ := hname.start
    rw [heq]
    exact List.cons_ne_nil _ _
  by_cases hc : f.conversion = '\x00' ∨ isConversion f.conversion = true
  · obtain ⟨w, hw, hnone⟩ := @convert_returns O py f.conversion v hc
    have hstep :
        ∀ text, outputField py (buildString py (keywords groups) 1) (keywords groups) f = .ok text ↔
        ∃ spec, specText (buildString py (keywords groups) 1) f = .ok spec ∧
          render py (.ofOption w) spec = .ok text := by
      intro text
      simp only [outputField, hfield, hw, except_bind_eq_ok, Except.ok.injEq, exists_eq_left']
    have hpart : w ≠ none ↔ f.conversion ≠ '\x00' ∨ groups f.name ≠ some none := by
      rw [ne_eq, hnone, hv]
      simp only [not_and_or, Option.some.injEq, ne_eq]
    constructor
    · rintro ⟨text, htext⟩
      obtain ⟨spec, hspec, hrender⟩ := (hstep text).mp htext
      refine ⟨hnamed, hc, spec, hspec, ?_⟩
      rw [← hpart]
      exact render_returns.mp ⟨text, hrender⟩
    · rintro ⟨-, -, spec, hspec, hfits⟩
      rw [← hpart] at hfits
      obtain ⟨text, hrender⟩ := render_returns.mpr hfits
      exact ⟨text, (hstep text).mpr ⟨spec, hspec, hrender⟩⟩
  · constructor
    · rintro ⟨text, htext⟩
      rw [outputField, hfield] at htext
      simp only [convert_raises hc, except_bind_eq_ok, reduceCtorEq, false_and, exists_false,
        and_false] at htext
    · exact fun h => absurd h.converts hc

theorem buildString_returns {kwargs : List Char → Option (Value O)} {depth : Nat} {s : List Char} :
    (∃ text, buildString py kwargs (depth + 1) s = .ok text) ↔ (markups s).2 = true ∧
      ∀ f ∈ fields s, ∃ text, outputField py (buildString py kwargs depth) kwargs f = .ok text := by
  have hmarkup : ∀ markup : List Char × Option Field,
      (∃ text, outputMarkup py (buildString py kwargs depth) kwargs markup = .ok text) ↔
        ∀ f, markup.2 = some f → ∃ text, outputField py (buildString py kwargs depth) kwargs f =
          .ok text := by
    rintro ⟨literal, f⟩
    cases f with
    | none => simp [outputMarkup]
    | some f => simp [outputMarkup]
  calc (∃ text, buildString py kwargs (depth + 1) s = .ok text)
      ↔ (∃ texts, (markups s).1.mapM (outputMarkup py (buildString py kwargs depth) kwargs) =
        .ok texts) ∧
          (markups s).2 = true := by
        simp only [buildString, except_bind_eq_ok, raiseIf_eq_ok, except_pure_eq_ok]
        constructor
        · rintro ⟨text, texts, htexts, _, hend, -⟩
          exact ⟨⟨texts, htexts⟩, by simpa using hend⟩
        · rintro ⟨⟨texts, htexts⟩, hend⟩
          exact ⟨texts.flatten, texts, htexts, (), by simp [hend], rfl⟩
    _ ↔ (∀ markup ∈ (markups s).1, ∀ f, markup.2 = some f →
          ∃ text, outputField py (buildString py kwargs depth) kwargs f = .ok text) ∧
            (markups s).2 = true := by
        simp only [mapM_returns, hmarkup]
    _ ↔ _ := by
        rw [and_comm, fields]
        simp only [List.mem_filterMap, forall_exists_index, and_imp]
        tauto

/-- A format string whose named fields are groups is formatted when all its fields suit the
groups. -/
theorem format_returns {s : List Char}
    (hnames : ∀ f ∈ fields s, f.name ≠ [] → PlainName py f.name ∧ groups f.name ≠ none) :
    (∃ text, format py (keywords groups) s = .ok text) ↔
      (markups s).2 = true ∧ ∀ f ∈ fields s, Suits py groups f := by
  rw [format, buildString_returns]
  refine and_congr_right fun _ => forall₂_congr fun f hf => ?_
  by_cases hname : f.name = []
  · constructor
    · rintro ⟨text, htext⟩
      rw [outputField, hname, getField_nil] at htext
      cases htext
    · exact fun h => absurd hname h.named
  · obtain ⟨hplain, hgroup⟩ := hnames f hf hname
    obtain ⟨v, hv⟩ := Option.ne_none_iff_exists'.mp hgroup
    exact outputField_returns hplain hv

end Suits

end AssetStore.Lib.Formatting
