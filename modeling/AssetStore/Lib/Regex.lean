import AssetStore.Lib.Fallible

/-! Regular expressions in the grammar of Python 3.12 (`re._parser`), for patterns that are strings.
A pattern is read from left to right: a token is a character or an escaped one, a lexeme is what the
parser takes in one step, and a stack of frames holds the groups that are open. The parser keeps of
a group's width only that the group is closed, and it does not simplify what it has read; a pattern
that it refuses has no reading. -/

namespace AssetStore.Lib.Regex

/-- What the parser asks of Unicode: `str.isidentifier`, and the code that `unicodedata.lookup`
finds. -/
structure Unicode where
  isIdentifier : List Char → Bool
  lookup : List Char → Option Nat

/-! ### Tokens -/

/-- A token of `Tokenizer`: a backslash takes the next character with it. -/
inductive Token
  | chr (c : Char)
  | esc (c : Char)
  deriving DecidableEq, Repr

def Token.text : Token → List Char
  | .chr c => [c]
  | .esc c => ['\\', c]

/-- The tokens of a pattern, unless it ends in a lone backslash. -/
def tokenize : List Char → Option (List Token)
  | [] => some []
  | ['\\'] => none
  | '\\' :: c :: pattern => (tokenize pattern).map (.esc c :: ·)
  | c :: pattern => (tokenize pattern).map (.chr c :: ·)

/-- The tokens are the text of the pattern. -/
theorem text_of_tokenize {pattern : List Char} {tokens : List Token}
    (h : tokenize pattern = some tokens) :
    pattern = tokens.flatMap Token.text := by
  fun_induction tokenize pattern generalizing tokens with
  | case1 =>
    obtain rfl := Option.some.inj h
    rfl
  | case2 => cases h
  | case3 c pattern ih =>
    obtain ⟨rest, hrest, rfl⟩ := Option.map_eq_some_iff.mp h
    rw [List.flatMap_cons, ← ih hrest]
    rfl
  | case4 c pattern _ _ ih =>
    obtain ⟨rest, hrest, rfl⟩ := Option.map_eq_some_iff.mp h
    rw [List.flatMap_cons, ← ih hrest]
    rfl

/-- `Tokenizer.getwhile`: at most `n` characters that are allowed. -/
def getWhile (allowed : Char → Bool) : Nat → List Token → List Char × List Token
  | n + 1, .chr c :: rest =>
    if allowed c then (c :: (getWhile allowed n rest).1, (getWhile allowed n rest).2)
      else ([], .chr c :: rest)
  | _, rest => ([], rest)

/-- The text up to a terminator, and what follows it. -/
def takeUntil (terminator : Char) : List Token → Option (List Char × List Token)
  | [] => none
  | t :: rest =>
    if t = .chr terminator then some ([], rest)
    else (takeUntil terminator rest).map fun p => (t.text ++ p.1, p.2)

/-- `Tokenizer.getuntil`: the text may not be empty. -/
def getUntil (terminator : Char) (tokens : List Token) : Option (List Char × List Token) := do
  let (name, rest) ← takeUntil terminator tokens
  guard (name ≠ [])
  return (name, rest)

/-! ### Patterns -/

inductive Position
  | beginning
  | beginningString
  | boundary
  | nonBoundary
  | ending
  | endingString
  deriving DecidableEq, Repr

inductive Category
  | digit
  | space
  | word
  deriving DecidableEq, Repr

/-- An element of a character set. -/
inductive Member
  | literal (code : Nat)
  | range (low high : Nat)
  | category (category : Category) (negated : Bool)
  deriving DecidableEq, Repr

inductive Repetition
  | greedy
  | reluctant
  | possessive
  deriving DecidableEq, Repr

/-- What a pattern, or a part of it, is made of. -/
inductive Node
  | empty
  | cat (first second : Node)
  | branch (left right : Node)
  | literal (code : Nat)
  | any
  | set (negated : Bool) (members : List Member)
  | anchor (position : Position)
  | group (number : Nat) (body : Node)
  | scope (on off : List Char) (body : Node)
  | atomic (body : Node)
  | look (ahead positive : Bool) (body : Node)
  | backreference (group : Nat)
  | conditional (group : Nat) (yes no : Node)
  | repeated (kind : Repetition) (least : Nat) (most : Option Nat) (body : Node)
  deriving DecidableEq, Repr

/-- A pattern without backreferences and without lookaround. -/
def Node.safe : Node → Bool
  | .backreference _ => false
  | .look .. => false
  | .cat p q => p.safe && q.safe
  | .branch p q => p.safe && q.safe
  | .conditional _ p q => p.safe && q.safe
  | .group _ p => p.safe
  | .scope _ _ p => p.safe
  | .atomic p => p.safe
  | .repeated _ _ _ p => p.safe
  | .empty => true
  | .literal _ => true
  | .any => true
  | .set .. => true
  | .anchor _ => true

/-! ### Escapes -/

def isDigit (c : Char) : Bool := "0123456789".toList.contains c

def isOctDigit (c : Char) : Bool := "01234567".toList.contains c

def isHexDigit (c : Char) : Bool := "0123456789abcdefABCDEF".toList.contains c

def isAsciiLetter (c : Char) : Bool :=
  "abcdefghijklmnopqrstuvwxyzABCDEFGHIJKLMNOPQRSTUVWXYZ".toList.contains c

def digitValue (c : Char) : Nat :=
  if isDigit c then c.toNat - 48 else if c.toNat < 97 then c.toNat - 55 else c.toNat - 87

/-- `int(digits, base)`. -/
def ofDigits (base : Nat) (digits : List Char) : Nat :=
  digits.foldl (fun n c => base * n + digitValue c) 0

/-- `ESCAPES`. -/
def escapes : List (Char × Nat) :=
  [('a', 7), ('b', 8), ('f', 12), ('n', 10), ('r', 13), ('t', 9), ('v', 11), ('\\', 92)]

/-- The `CATEGORIES` that may stand in a set. -/
def setCategories : List (Char × Member) :=
  [('d', .category .digit false), ('D', .category .digit true), ('s', .category .space false),
   ('S', .category .space true), ('w', .category .word false), ('W', .category .word true)]

/-- `CATEGORIES`. -/
def categories : List (Char × Node) :=
  [('A', .anchor .beginningString), ('b', .anchor .boundary), ('B', .anchor .nonBoundary),
   ('Z', .anchor .endingString)] ++ setCategories.map fun p => (p.1, .set false [p.2])

/-- A code of exactly `n` hexadecimal digits. -/
def hexCode (n : Nat) (tokens : List Token) : Option (Nat × List Token) := do
  let (digits, rest) := getWhile isHexDigit n tokens
  guard (digits.length = n)
  return (ofDigits 16 digits, rest)

/-- The code that is named in braces. -/
def namedCode (unicode : Unicode) : List Token → Option (Nat × List Token)
  | .chr '{' :: tokens => do
    let (name, rest) ← getUntil '}' tokens
    let code ← unicode.lookup name
    return (code, rest)
  | _ => none

/-- The escapes that are read alike in a set and outside of one. -/
def codeEscape (unicode : Unicode) (c : Char) (rest : List Token) : Option (Nat × List Token) :=
  if c = 'x' then hexCode 2 rest
  else if c = 'u' then hexCode 4 rest
  else if c = 'U' then do
    let (code, rest) ← hexCode 8 rest
    guard (code ≤ 0x10FFFF)
    return (code, rest)
  else if c = 'N' then namedCode unicode rest
  else if isAsciiLetter c then none
  else some (c.toNat, rest)

/-- `_class_escape`. -/
def classEscape (unicode : Unicode) (c : Char) (rest : List Token) : Option (Member × List Token) :=
  match escapes.lookup c, setCategories.lookup c with
  | some code, _ => some (.literal code, rest)
  | none, some member => some (member, rest)
  | none, none =>
    if isOctDigit c then do
      let (digits, rest) := getWhile isOctDigit 2 rest
      guard (ofDigits 8 (c :: digits) ≤ 0o377)
      return (.literal (ofDigits 8 (c :: digits)), rest)
    else if isDigit c then none
    else do
      let (code, rest) ← codeEscape unicode c rest
      return (.literal code, rest)

/-! ### Sets -/

def readMember (unicode : Unicode) : Token → List Token → Option (Member × List Token)
  | .esc c, rest => classEscape unicode c rest
  | .chr c, rest => some (.literal c.toNat, rest)

def rangeOf : Member → Member → Option Member
  | .literal low, .literal high => do
    guard (low ≤ high)
    return .range low high
  | _, _ => none

/-- A member or a range; a bracket after the dash is the end of the set. -/
def readElement (unicode : Unicode) (t : Token) (tokens : List Token) :
    Option ((List Member × Bool) × List Token) := do
  let (low, rest) ← readMember unicode t tokens
  match rest with
  | .chr '-' :: .chr ']' :: rest => return (([low, .literal '-'.toNat], true), rest)
  | .chr '-' :: t :: rest =>
    let (high, rest) ← readMember unicode t rest
    let range ← rangeOf low high
    return (([range], false), rest)
  | [.chr '-'] => none
  | rest => return (([low], false), rest)

/-! ### What is left -/

section Suffix

variable {unicode : Unicode} {allowed : Char → Bool} {n : Nat} {c terminator : Char} {t : Token}
  {tokens rest : List Token}

theorem getWhile_suffix : (getWhile allowed n tokens).2 <:+ tokens := by
  induction n generalizing tokens with
  | zero => simp [getWhile]
  | succ n ih =>
    unfold getWhile
    split
    · next k c rest heq =>
      obtain rfl := Nat.succ.inj heq
      split
      · exact ih.trans (List.suffix_cons _ _)
      · exact List.suffix_rfl
    · exact List.suffix_rfl

theorem takeUntil_suffix {p : List Char × List Token} (h : takeUntil terminator tokens = some p) :
    p.2 <:+ tokens := by
  induction tokens generalizing p with
  | nil => cases h
  | cons t rest ih =>
    rw [takeUntil] at h
    split at h
    · obtain rfl := Option.some.inj h
      exact List.suffix_cons _ _
    · obtain ⟨q, hq, rfl⟩ := Option.map_eq_some_iff.mp h
      exact (ih hq).trans (List.suffix_cons _ _)

theorem getUntil_suffix {p : List Char × List Token} (h : getUntil terminator tokens = some p) :
    p.2 <:+ tokens := by
  obtain ⟨q, hq, hp⟩ := Option.bind_eq_some_iff.mp h
  obtain ⟨-, rfl⟩ := guarded_eq_some.mp hp
  exact takeUntil_suffix hq

theorem hexCode_suffix {p : Nat × List Token} (h : hexCode n tokens = some p) : p.2 <:+ tokens := by
  obtain ⟨-, rfl⟩ := guarded_eq_some.mp h
  exact getWhile_suffix

theorem namedCode_suffix {p : Nat × List Token} (h : namedCode unicode tokens = some p) :
    p.2 <:+ tokens := by
  unfold namedCode at h
  split at h
  · obtain ⟨q, hq, hp⟩ := Option.bind_eq_some_iff.mp h
    obtain ⟨code, -, hp⟩ := Option.bind_eq_some_iff.mp hp
    obtain rfl := Option.some.inj hp
    exact (getUntil_suffix hq).trans (List.suffix_cons _ _)
  · cases h

theorem codeEscape_suffix {p : Nat × List Token} (h : codeEscape unicode c tokens = some p) :
    p.2 <:+ tokens := by
  unfold codeEscape at h
  split at h
  · exact hexCode_suffix h
  split at h
  · exact hexCode_suffix h
  split at h
  · obtain ⟨q, hq, hp⟩ := Option.bind_eq_some_iff.mp h
    obtain ⟨-, rfl⟩ := guarded_eq_some.mp hp
    exact hexCode_suffix hq
  split at h
  · exact namedCode_suffix h
  split at h
  · cases h
  · obtain rfl := Option.some.inj h
    exact List.suffix_rfl

theorem classEscape_suffix {p : Member × List Token} (h : classEscape unicode c tokens = some p) :
    p.2 <:+ tokens := by
  unfold classEscape at h
  split at h
  · obtain rfl := Option.some.inj h
    exact List.suffix_rfl
  · obtain rfl := Option.some.inj h
    exact List.suffix_rfl
  split at h
  · obtain ⟨-, rfl⟩ := guarded_eq_some.mp h
    exact getWhile_suffix
  split at h
  · cases h
  · obtain ⟨q, hq, hp⟩ := Option.bind_eq_some_iff.mp h
    obtain rfl := Option.some.inj hp
    exact codeEscape_suffix hq

theorem readMember_suffix {p : Member × List Token} (h : readMember unicode t tokens = some p) :
    p.2 <:+ tokens := by
  cases t with
  | esc c => exact classEscape_suffix h
  | chr c =>
    obtain rfl := Option.some.inj h
    exact List.suffix_rfl

theorem readElement_suffix {p : (List Member × Bool) × List Token}
    (h : readElement unicode t tokens = some p) :
    p.2 <:+ tokens := by
  obtain ⟨⟨low, rest⟩, hlow, hp⟩ := Option.bind_eq_some_iff.mp h
  refine List.IsSuffix.trans ?_ (readMember_suffix hlow)
  dsimp only at hp
  split at hp
  · obtain rfl := Option.some.inj hp
    exact (List.suffix_cons _ _).trans (List.suffix_cons _ _)
  · obtain ⟨⟨high, rest'⟩, hhigh, hp⟩ := Option.bind_eq_some_iff.mp hp
    obtain ⟨range, -, hp⟩ := Option.bind_eq_some_iff.mp hp
    obtain rfl := Option.some.inj hp
    exact (readMember_suffix hhigh).trans ((List.suffix_cons _ _).trans (List.suffix_cons _ _))
  · cases hp
  · obtain rfl := Option.some.inj hp
    exact List.suffix_rfl

end Suffix

/-- The elements up to the bracket that ends the set; one at the beginning does not. -/
def readElements (unicode : Unicode) (members : List Member) :
    List Token → Option (List Member × List Token)
  | [] => none
  | t :: rest =>
    if t = .chr ']' ∧ members ≠ [] then some (members, rest)
    else
      match _h : readElement unicode t rest with
      | none => none
      | some ((added, true), rest') => some (members ++ added, rest')
      | some ((added, false), rest') => readElements unicode (members ++ added) rest'
termination_by tokens => tokens.length
decreasing_by
  have hle : rest'.length ≤ rest.length := (readElement_suffix _h).length_le
  simp only [List.length_cons]
  omega

/-! ### Lexemes -/

/-- What opens with a bracket. -/
inductive Opening
  | capture (name : Option (List Char))
  | scope (on off : List Char)
  | atomic
  | look (ahead positive : Bool)
  | condition (group : List Char)
  deriving DecidableEq, Repr

/-- What the parser takes in one step. -/
inductive Lexeme
  | skip
  | item (node : Node)
  | reference (group : Nat)
  | namedReference (name : List Char)
  | quantifier (kind : Repetition) (least : Nat) (most : Option Nat)
  | opening (opening : Opening)
  | flags (letters : List Char)
  | bar
  | close
  deriving DecidableEq, Repr

/-- A character set. -/
def readSet (unicode : Unicode) (tokens : List Token) : Option (Lexeme × List Token) :=
  match tokens with
  | .chr '^' :: rest => (readElements unicode [] rest).map fun p => (.item (.set true p.1), p.2)
  | rest => (readElements unicode [] rest).map fun p => (.item (.set false p.1), p.2)

/-- A group that is referred to by one or two digits, or an octal code of three. -/
def readReference (c : Char) : List Token → Option (Lexeme × List Token)
  | .chr d :: rest =>
    if isDigit d = false then some (.reference (ofDigits 10 [c]), .chr d :: rest)
    else
      match rest with
      | .chr e :: rest' =>
        if isOctDigit c && isOctDigit d && isOctDigit e then do
          guard (ofDigits 8 [c, d, e] ≤ 0o377)
          return (.item (.literal (ofDigits 8 [c, d, e])), rest')
        else some (.reference (ofDigits 10 [c, d]), rest)
      | rest => some (.reference (ofDigits 10 [c, d]), rest)
  | rest => some (.reference (ofDigits 10 [c]), rest)

/-- `_escape`. -/
def readEscape (unicode : Unicode) (c : Char) (rest : List Token) : Option (Lexeme × List Token) :=
  match categories.lookup c, escapes.lookup c with
  | some node, _ => some (.item node, rest)
  | none, some code => some (.item (.literal code), rest)
  | none, none =>
    if c = '0' then
      some (.item (.literal (ofDigits 8 (getWhile isOctDigit 2 rest).1)),
        (getWhile isOctDigit 2 rest).2)
    else if isDigit c then readReference c rest
    else do
      let (code, rest) ← codeEscape unicode c rest
      return (.item (.literal code), rest)

/-- The suffix of a quantifier. -/
def readKind : List Token → Repetition × List Token
  | .chr '?' :: rest => (.reluctant, rest)
  | .chr '+' :: rest => (.possessive, rest)
  | rest => (.greedy, rest)

/-- `MAXREPEAT`. -/
def maxRepeat : Nat := 4294967295

/-- `sys.get_int_max_str_digits()`. -/
def maxDigits : Nat := 4300

/-- The number of repetitions, if it is given. -/
def readBound (digits : List Char) : Option (Option Nat) :=
  if digits = [] then some none
  else do
    guard (digits.length ≤ maxDigits ∧ ofDigits 10 digits < maxRepeat)
    return some (ofDigits 10 digits)

/-- The bounds in braces, and what follows them. -/
def readBounds (tokens : List Token) : Option ((List Char × List Char) × List Token) :=
  if tokens.head? = some (.chr '}') then none
  else
    let (low, rest) := getWhile isDigit tokens.length tokens
    match rest with
    | .chr '}' :: rest => some ((low, low), rest)
    | .chr ',' :: rest =>
      let (high, rest) := getWhile isDigit rest.length rest
      match rest with
      | .chr '}' :: rest => some ((low, high), rest)
      | _ => none
    | _ => none

def quantified (least : Nat) (most : Option Nat) (rest : List Token) : Lexeme × List Token :=
  (.quantifier (readKind rest).1 least most, (readKind rest).2)

/-- A brace that opens no bounds is a literal. -/
def readBraces (tokens : List Token) : Option (Lexeme × List Token) :=
  match readBounds tokens with
  | none => some (.item (.literal '{'.toNat), tokens)
  | some ((low, high), rest) => do
    let least ← readBound low
    let most ← readBound high
    guard (∀ n ∈ most, least.getD 0 ≤ n)
    return quantified (least.getD 0) most rest

/-- The letters of `FLAGS`. -/
def isFlag (c : Char) : Bool := "iLmsxatu".toList.contains c

/-- What is said of all characters of a list is decided along the list, not over all characters. -/
local instance (priority := high) decidableForall (s : List Char) (p : Char → Prop)
  [DecidablePred p] :
    Decidable (∀ c ∈ s, p c) :=
  List.decidableBAll p s

/-- `_parse_flags`. -/
def readFlags (tokens : List Token) : Option (Lexeme × List Token) := do
  let (on, rest) := getWhile isFlag tokens.length tokens
  guard ('L' ∉ on ∧ ¬('a' ∈ on ∧ 'u' ∈ on))
  match rest with
  | .chr ')' :: rest =>
    guard (on ≠ [])
    return (.flags on, rest)
  | .chr ':' :: rest =>
    guard (on ≠ [] ∧ 't' ∉ on)
    return (.opening (.scope on []), rest)
  | .chr '-' :: rest =>
    let (off, rest) := getWhile isFlag rest.length rest
    guard ('t' ∉ on ∧ off ≠ [] ∧ ∀ c ∈ off, c ∉ "aLut".toList ∧ c ∉ on)
    match rest with
    | .chr ':' :: rest => return (.opening (.scope on off), rest)
    | _ => none
  | _ => none

/-- What follows `(?`. -/
def readExtension (unicode : Unicode) : List Token → Option (Lexeme × List Token)
  | .chr 'P' :: .chr '<' :: rest => do
    let (name, rest) ← getUntil '>' rest
    guard (unicode.isIdentifier name)
    return (.opening (.capture (some name)), rest)
  | .chr 'P' :: .chr '=' :: rest => do
    let (name, rest) ← getUntil ')' rest
    guard (unicode.isIdentifier name)
    return (.namedReference name, rest)
  | .chr ':' :: rest => some (.opening (.scope [] []), rest)
  | .chr '#' :: rest => (takeUntil ')' rest).map fun p => (.skip, p.2)
  | .chr '=' :: rest => some (.opening (.look true true), rest)
  | .chr '!' :: rest => some (.opening (.look true false), rest)
  | .chr '<' :: .chr '=' :: rest => some (.opening (.look false true), rest)
  | .chr '<' :: .chr '!' :: rest => some (.opening (.look false false), rest)
  | .chr '(' :: rest => do
    let (group, rest) ← getUntil ')' rest
    return (.opening (.condition group), rest)
  | .chr '>' :: rest => some (.opening .atomic, rest)
  | tokens => readFlags tokens

def readGroup (unicode : Unicode) : List Token → Option (Lexeme × List Token)
  | .chr '?' :: rest => readExtension unicode rest
  | rest => some (.opening (.capture none), rest)

def isWhitespace (c : Char) : Bool := " \t\n\r\x0b\x0c".toList.contains c

/-- What follows the line. -/
def dropLine : List Token → List Token
  | [] => []
  | t :: rest => if t = .chr '\n' then rest else dropLine rest

/-- What begins with a character. -/
def readItem (unicode : Unicode) (c : Char) (rest : List Token) : Option (Lexeme × List Token) :=
  match c with
  | '|' => some (.bar, rest)
  | ')' => some (.close, rest)
  | '[' => readSet unicode rest
  | '?' => some (quantified 0 (some 1) rest)
  | '*' => some (quantified 0 none rest)
  | '+' => some (quantified 1 none rest)
  | '{' => readBraces rest
  | '.' => some (.item .any, rest)
  | '(' => readGroup unicode rest
  | '^' => some (.item (.anchor .beginning), rest)
  | '$' => some (.item (.anchor .ending), rest)
  | c => some (.item (.literal c.toNat), rest)

/-- Under the flag `x` whitespace and comments are skipped. -/
def readChar (unicode : Unicode) (verbose : Bool) (c : Char) (rest : List Token) :
    Option (Lexeme × List Token) :=
  if verbose && isWhitespace c then some (.skip, rest)
  else if verbose && c == '#' then some (.skip, dropLine rest)
  else readItem unicode c rest

def readLexeme (unicode : Unicode) (verbose : Bool) :
    Token → List Token → Option (Lexeme × List Token)
  | .esc c, rest => readEscape unicode c rest
  | .chr c, rest => readChar unicode verbose c rest

section Suffix

variable {unicode : Unicode} {verbose : Bool} {c : Char} {t : Token} {members : List Member}
  {tokens rest : List Token}

theorem readElements_cons : readElements unicode members (t :: rest) =
    if t = .chr ']' ∧ members ≠ [] then some (members, rest)
    else (readElement unicode t rest).bind fun q =>
      if q.1.2 then some (members ++ q.1.1, q.2)
        else readElements unicode (members ++ q.1.1) q.2 := by
  rw [readElements]
  split
  · rfl
  · split <;> simp [*]

theorem readElements_suffix {q : List Member × List Token}
    (h : readElements unicode members tokens = some q) :
    q.2 <:+ tokens := by
  induction members, tokens using readElements.induct unicode with
  | case1 members => simp [readElements] at h
  | case2 members t rest hend =>
    rw [readElements_cons, if_pos hend] at h
    obtain rfl := Option.some.inj h
    exact List.suffix_cons _ _
  | case3 members t rest hend helement =>
    rw [readElements_cons, if_neg hend, helement] at h
    cases h
  | case4 members t rest hend added rest' helement =>
    rw [readElements_cons, if_neg hend, helement] at h
    obtain rfl := Option.some.inj h
    exact (readElement_suffix helement).trans (List.suffix_cons _ _)
  | case5 members t rest hend added rest' helement ih =>
    rw [readElements_cons, if_neg hend, helement] at h
    exact (ih h).trans ((readElement_suffix helement).trans (List.suffix_cons _ _))

theorem readSet_suffix {p : Lexeme × List Token} (h : readSet unicode tokens = some p) :
    p.2 <:+ tokens := by
  unfold readSet at h
  split at h
  · obtain ⟨q, hq, rfl⟩ := Option.map_eq_some_iff.mp h
    exact (readElements_suffix hq).trans (List.suffix_cons _ _)
  · obtain ⟨q, hq, rfl⟩ := Option.map_eq_some_iff.mp h
    exact readElements_suffix hq

theorem readReference_suffix {p : Lexeme × List Token} (h : readReference c tokens = some p) :
    p.2 <:+ tokens := by
  unfold readReference at h
  split at h
  · split at h
    · obtain rfl := Option.some.inj h
      exact List.suffix_rfl
    split at h
    · split at h
      · obtain ⟨-, rfl⟩ := guarded_eq_some.mp h
        exact (List.suffix_cons _ _).trans (List.suffix_cons _ _)
      · obtain rfl := Option.some.inj h
        exact List.suffix_cons _ _
    · obtain rfl := Option.some.inj h
      exact List.suffix_cons _ _
  · obtain rfl := Option.some.inj h
    exact List.suffix_rfl

theorem readEscape_suffix {p : Lexeme × List Token} (h : readEscape unicode c tokens = some p) :
    p.2 <:+ tokens := by
  unfold readEscape at h
  split at h
  · obtain rfl := Option.some.inj h
    exact List.suffix_rfl
  · obtain rfl := Option.some.inj h
    exact List.suffix_rfl
  split at h
  · obtain rfl := Option.some.inj h
    exact getWhile_suffix
  split at h
  · exact readReference_suffix h
  · obtain ⟨q, hq, hp⟩ := Option.bind_eq_some_iff.mp h
    obtain rfl := Option.some.inj hp
    exact codeEscape_suffix hq

theorem readKind_suffix : (readKind tokens).2 <:+ tokens := by
  unfold readKind
  split
  · exact List.suffix_cons _ _
  · exact List.suffix_cons _ _
  · exact List.suffix_rfl

theorem readBounds_suffix {q : (List Char × List Char) × List Token}
    (h : readBounds tokens = some q) :
    q.2 <:+ tokens := by
  unfold readBounds at h
  split at h
  · cases h
  have hlow : (getWhile isDigit tokens.length tokens).2 <:+ tokens := getWhile_suffix
  dsimp only at h
  split at h
  · next rest heq =>
    obtain rfl := Option.some.inj h
    exact (List.suffix_cons _ _).trans (heq ▸ hlow)
  · next rest heq =>
    have hhigh : (getWhile isDigit rest.length rest).2 <:+ rest := getWhile_suffix
    split at h
    · next rest' heq' =>
      obtain rfl := Option.some.inj h
      exact (List.suffix_cons _ _).trans
        ((heq' ▸ hhigh).trans ((List.suffix_cons _ _).trans (heq ▸ hlow)))
    · cases h
  · cases h

theorem readBraces_suffix {p : Lexeme × List Token} (h : readBraces tokens = some p) :
    p.2 <:+ tokens := by
  unfold readBraces at h
  split at h
  · obtain rfl := Option.some.inj h
    exact List.suffix_rfl
  · next low high rest hbounds =>
    obtain ⟨least, -, h⟩ := Option.bind_eq_some_iff.mp h
    obtain ⟨most, -, h⟩ := Option.bind_eq_some_iff.mp h
    obtain ⟨-, rfl⟩ := guarded_eq_some.mp h
    exact readKind_suffix.trans (readBounds_suffix hbounds)

theorem readFlags_suffix {p : Lexeme × List Token} (h : readFlags tokens = some p) :
    p.2 <:+ tokens := by
  unfold readFlags at h
  have hon : (getWhile isFlag tokens.length tokens).2 <:+ tokens := getWhile_suffix
  dsimp only at h
  obtain ⟨-, -, h⟩ := Option.bind_eq_some_iff.mp h
  split at h
  · next rest heq =>
    obtain ⟨-, rfl⟩ := guarded_eq_some.mp h
    exact (List.suffix_cons _ _).trans (heq ▸ hon)
  · next rest heq =>
    obtain ⟨-, rfl⟩ := guarded_eq_some.mp h
    exact (List.suffix_cons _ _).trans (heq ▸ hon)
  · next rest heq =>
    have hoff : (getWhile isFlag rest.length rest).2 <:+ rest := getWhile_suffix
    obtain ⟨-, -, h⟩ := Option.bind_eq_some_iff.mp h
    split at h
    · next rest' heq' =>
      obtain rfl := Option.some.inj h
      exact (List.suffix_cons _ _).trans
        ((heq' ▸ hoff).trans ((List.suffix_cons _ _).trans (heq ▸ hon)))
    · cases h
  · cases h

theorem readExtension_suffix {p : Lexeme × List Token} (h : readExtension unicode tokens = some p) :
    p.2 <:+ tokens := by
  have htwo : ∀ {t t' : Token} {rest : List Token}, rest <:+ t :: t' :: rest := fun {t t' rest} =>
    (List.suffix_cons t' rest).trans (List.suffix_cons t _)
  unfold readExtension at h
  split at h
  · obtain ⟨q, hq, h⟩ := Option.bind_eq_some_iff.mp h
    obtain ⟨-, rfl⟩ := guarded_eq_some.mp h
    exact (getUntil_suffix hq).trans htwo
  · obtain ⟨q, hq, h⟩ := Option.bind_eq_some_iff.mp h
    obtain ⟨-, rfl⟩ := guarded_eq_some.mp h
    exact (getUntil_suffix hq).trans htwo
  · obtain rfl := Option.some.inj h
    exact List.suffix_cons _ _
  · obtain ⟨q, hq, rfl⟩ := Option.map_eq_some_iff.mp h
    exact (takeUntil_suffix hq).trans (List.suffix_cons _ _)
  · obtain rfl := Option.some.inj h
    exact List.suffix_cons _ _
  · obtain rfl := Option.some.inj h
    exact List.suffix_cons _ _
  · obtain rfl := Option.some.inj h
    exact htwo
  · obtain rfl := Option.some.inj h
    exact htwo
  · obtain ⟨q, hq, h⟩ := Option.bind_eq_some_iff.mp h
    obtain rfl := Option.some.inj h
    exact (getUntil_suffix hq).trans (List.suffix_cons _ _)
  · obtain rfl := Option.some.inj h
    exact List.suffix_cons _ _
  · exact readFlags_suffix h

theorem readGroup_suffix {p : Lexeme × List Token} (h : readGroup unicode tokens = some p) :
    p.2 <:+ tokens := by
  unfold readGroup at h
  split at h
  · exact (readExtension_suffix h).trans (List.suffix_cons _ _)
  · obtain rfl := Option.some.inj h
    exact List.suffix_rfl

theorem dropLine_suffix : dropLine tokens <:+ tokens := by
  induction tokens with
  | nil => exact List.suffix_rfl
  | cons t rest ih =>
    rw [dropLine]
    split
    · exact List.suffix_cons _ _
    · exact ih.trans (List.suffix_cons _ _)

theorem readItem_suffix {p : Lexeme × List Token} (h : readItem unicode c tokens = some p) :
    p.2 <:+ tokens := by
  have hsame : ∀ {lexeme : Lexeme}, some (lexeme, tokens) = some p → p.2 <:+ tokens := by
    rintro lexeme heq
    obtain rfl := Option.some.inj heq
    exact List.suffix_rfl
  have hquantified : ∀ {least most}, some (quantified least most tokens) = some p →
      p.2 <:+ tokens := by
    rintro least most heq
    obtain rfl := Option.some.inj heq
    exact readKind_suffix
  unfold readItem at h
  split at h
  · exact hsame h
  · exact hsame h
  · exact readSet_suffix h
  · exact hquantified h
  · exact hquantified h
  · exact hquantified h
  · exact readBraces_suffix h
  · exact hsame h
  · exact readGroup_suffix h
  · exact hsame h
  · exact hsame h
  · exact hsame h

theorem readChar_suffix {p : Lexeme × List Token} (h : readChar unicode verbose c tokens = some p) :
    p.2 <:+ tokens := by
  unfold readChar at h
  split at h
  · obtain rfl := Option.some.inj h
    exact List.suffix_rfl
  split at h
  · obtain rfl := Option.some.inj h
    exact dropLine_suffix
  · exact readItem_suffix h

/-- A lexeme begins with its first token and takes some of those after it. -/
theorem readLexeme_suffix {p : Lexeme × List Token}
    (h : readLexeme unicode verbose t tokens = some p) :
    p.2 <:+ tokens := by
  cases t with
  | esc c => exact readEscape_suffix h
  | chr c => exact readChar_suffix h

end Suffix

end AssetStore.Lib.Regex
