import AssetStore.Lib.Regex.Parsing

/-! Named backreferences, found without the parser. A scanner goes over the tokens of a pattern and
keeps only where it is: between items, inside of a set, a name or a comment, and for every open
group whether whitespace is skipped in it. On a pattern that the parser reads it finds a named
backreference exactly when the parser does. -/

namespace AssetStore.Lib.Regex

/-! ### The scanner -/

/-- Where the next token stands. -/
inductive Mode
  | items
  | opening
  | extension
  | python
  | behind
  | groupName
  | condition
  | flagsOn (x : Bool)
  | flagsOff (on off : Bool)
  | comment
  | line
  | charName (inSet : Bool)
  | setStart
  | setFirst
  | members
  deriving DecidableEq, Repr

/-- The scanner between two tokens. -/
structure Scanner where
  mode : Mode := .items
  verbose : Bool := false
  enclosing : List Bool := []
  deriving DecidableEq, Repr

namespace Scanner

variable (s : Scanner)

def goto (mode : Mode) : Scanner := { s with mode }

/-- A group opens. -/
def push (verbose : Bool) : Scanner :=
  { mode := .items, verbose, enclosing := s.verbose :: s.enclosing }

/-- A group closes. -/
def pop : Scanner :=
  match s.enclosing with
  | [] => s.goto .items
  | verbose :: enclosing => { mode := .items, verbose, enclosing }

/-- Between two items. -/
def item : Token → Scanner
  | .esc c => s.goto (if c = 'N' then .charName false else .items)
  | .chr '[' => s.goto .setStart
  | .chr '(' => s.goto .opening
  | .chr ')' => s.pop
  | .chr c => s.goto (if s.verbose && c == '#' then .line else .items)

/-- In a set, where a bracket would not end it. -/
def member : Token → Scanner
  | .esc c => s.goto (if c = 'N' then .charName true else .members)
  | .chr _ => s.goto .members

/-- After `(?`. -/
def extend : Token → Scanner
  | .chr 'P' => s.goto .python
  | .chr '<' => s.goto .behind
  | .chr '#' => s.goto .comment
  | .chr '(' => s.goto .condition
  | .chr '-' => s.goto (.flagsOff false false)
  | .chr c => if isFlag c then s.goto (.flagsOn (c == 'x')) else s.push s.verbose
  | .esc _ => s.push s.verbose

/-- One token further. -/
def next (t : Token) : Scanner :=
  match s.mode with
  | .items => s.item t
  | .opening => if t = .chr '?' then s.goto .extension else (s.push s.verbose).item t
  | .extension => s.extend t
  | .python => s.goto .groupName
  | .behind => s.push s.verbose
  | .groupName => if t = .chr '>' then s.push s.verbose else s
  | .condition => if t = .chr ')' then s.push s.verbose else s
  | .flagsOn x =>
    if t = .chr ')' then { s with mode := .items, verbose := s.verbose || x }
    else if t = .chr ':' then s.push (s.verbose || x)
    else if t = .chr '-' then s.goto (.flagsOff x false)
    else s.goto (.flagsOn (x || t == .chr 'x'))
  | .flagsOff on off =>
    if t = .chr ':' then s.push ((s.verbose || on) && !off)
      else s.goto (.flagsOff on (off || t == .chr 'x'))
  | .comment => if t = .chr ')' then s.goto .items else s
  | .line => if t = .chr '\n' then s.goto .items else s
  | .charName inSet => if t = .chr '}' then s.goto (if inSet then .members else .items) else s
  | .setStart => if t = .chr '^' then s.goto .setFirst else s.member t
  | .setFirst => s.member t
  | .members => if t = .chr ']' then s.goto .items else s.member t

/-- The scanner comes to `(?P=` between two items. -/
def finds : Scanner → List Token → Bool
  | _, [] => false
  | s, t :: rest => if s.mode = .python ∧ t = .chr '=' then true else finds (s.next t) rest

end Scanner

/-! ### Reading and scanning -/

namespace Scanner

section Texts

variable {s : Scanner} {c terminator : Char} {t : Token} {n : Nat} {tokens rest : List Token}

theorem finds_cons (h : s.mode ≠ .python) : finds s (t :: rest) = finds (s.next t) rest := by
  rw [finds, if_neg fun hpython => h hpython.1]

/-- What a scanner does not look at can be left out. -/
theorem finds_getWhile {allowed : Char → Bool} (hmode : s.mode ≠ .python)
    (hplain : ∀ c, allowed c → s.next (.chr c) = s) :
    finds s tokens = finds s (getWhile allowed n tokens).2 := by
  induction n generalizing tokens with
  | zero => simp [getWhile]
  | succ n ih =>
    unfold getWhile
    split
    · next k c rest heq =>
      obtain rfl := Nat.succ.inj heq
      split
      · next hc => rw [finds_cons hmode, hplain c hc, ih]
      · rfl
    · rfl

theorem finds_takeUntil (hmode : s.mode ≠ .python) (hstay : ∀ t, t ≠ .chr terminator → s.next t = s)
    {p : List Char × List Token} (h : takeUntil terminator tokens = some p) :
    finds s tokens = finds (s.next (.chr terminator)) p.2 := by
  induction tokens generalizing p with
  | nil => cases h
  | cons t rest ih =>
    rw [takeUntil] at h
    split at h
    · next ht =>
      obtain rfl := Option.some.inj h
      rw [finds_cons hmode, ht]
    · next ht =>
      obtain ⟨q, hq, rfl⟩ := Option.map_eq_some_iff.mp h
      rw [finds_cons hmode, hstay t ht, ih hq]

theorem takeUntil_of_getUntil {p : List Char × List Token}
    (h : getUntil terminator tokens = some p) :
    takeUntil terminator tokens = some p := by
  obtain ⟨q, hq, h⟩ := Option.bind_eq_some_iff.mp h
  obtain ⟨-, rfl⟩ := guarded_eq_some.mp h
  exact hq

theorem finds_dropLine : finds (s.goto .line) tokens = finds (s.goto .items) (dropLine tokens) := by
  induction tokens with
  | nil => rfl
  | cons t rest ih =>
    rw [finds_cons (by simp [goto]), dropLine]
    split
    · next ht => rw [ht]; rfl
    · next ht => rw [← ih, next]; simp [goto, ht]

end Texts

section Sets

variable {unicode : Unicode} {s : Scanner} {inSet : Bool} {c : Char} {t : Token} {n : Nat}
  {members : List Member}
  {tokens : List Token}

/-- Where an escape stands. -/
def base (inSet : Bool) : Mode := if inSet then .members else .items

theorem next_plain (hc : c ∉ "[()#]".toList) :
    (s.goto (base inSet)).next (.chr c) = s.goto (base inSet) := by
  have hne : c ≠ '[' ∧ c ≠ '(' ∧ c ≠ ')' ∧ c ≠ '#' ∧ c ≠ ']' := by simpa using hc
  cases inSet with
  | true =>
    change (if Token.chr c = .chr ']' then _ else _) = _
    rw [if_neg (by simpa using hne.2.2.2.2)]
    rfl
  | false =>
    change (s.goto .items).item (.chr c) = s.goto .items
    have hitem : (s.goto .items).item (.chr c) =
        (s.goto .items).goto (if s.verbose && c == '#' then .line else .items) := by
      unfold item
      split <;> simp_all [goto]
    rw [hitem, if_neg (by simp [hne])]
    rfl

/-- Whether two texts share no character is decided along the first. -/
theorem not_mem_of_all {xs ys : List Char} (h : xs.all (fun c => !ys.contains c) = true)
    (hc : c ∈ xs) : c ∉ ys := by
  simpa using List.all_eq_true.mp h c hc

theorem digit_plain (h : isHexDigit c) : c ∉ "[()#]".toList := by
  have hdigits : "0123456789abcdefABCDEF".toList.all (fun c => !"[()#]".toList.contains c) =
      true := by decide
  exact not_mem_of_all hdigits (List.contains_iff_mem.mp h)

theorem octDigit_plain (h : isOctDigit c) : c ∉ "[()#]".toList := by
  have hdigits : "01234567".toList.all (fun c => !"[()#]".toList.contains c) = true := by decide
  exact not_mem_of_all hdigits (List.contains_iff_mem.mp h)

theorem goto_base_ne_python : (s.goto (base inSet)).mode ≠ .python := by
  cases inSet <;> simp [goto, base]

theorem finds_hexCode {p : Nat × List Token} (h : hexCode n tokens = some p) :
    finds (s.goto (base inSet)) tokens = finds (s.goto (base inSet)) p.2 := by
  obtain ⟨-, rfl⟩ := guarded_eq_some.mp h
  exact finds_getWhile goto_base_ne_python fun c hc => next_plain (digit_plain hc)

theorem finds_namedCode {p : Nat × List Token} (h : namedCode unicode tokens = some p) :
    finds (s.goto (.charName inSet)) tokens = finds (s.goto (base inSet)) p.2 := by
  unfold namedCode at h
  split at h
  · next tokens =>
    obtain ⟨q, hq, h⟩ := Option.bind_eq_some_iff.mp h
    obtain ⟨code, -, h⟩ := Option.bind_eq_some_iff.mp h
    obtain rfl := Option.some.inj h
    rw [finds_cons (by simp [goto]), finds_takeUntil (by simp [goto, next]) ?_
      (takeUntil_of_getUntil hq)]
    · rfl
    · intro t ht
      simp [goto, next, ht]
  · cases h

/-- The mode after the first token of an escape. -/
def escaped (inSet : Bool) (c : Char) : Mode := if c = 'N' then .charName inSet else base inSet

theorem finds_codeEscape {p : Nat × List Token} (h : codeEscape unicode c tokens = some p) :
    finds (s.goto (escaped inSet c)) tokens = finds (s.goto (base inSet)) p.2 := by
  unfold codeEscape at h
  split at h
  · next hc =>
    subst hc
    exact finds_hexCode h
  split at h
  · next hc =>
    subst hc
    exact finds_hexCode h
  split at h
  · next hc =>
    subst hc
    obtain ⟨q, hq, h⟩ := Option.bind_eq_some_iff.mp h
    obtain ⟨-, rfl⟩ := guarded_eq_some.mp h
    exact finds_hexCode hq
  split at h
  · next hc =>
    subst hc
    exact finds_namedCode h
  next hN =>
  split at h
  · cases h
  · obtain rfl := Option.some.inj h
    rw [escaped, if_neg hN]

theorem finds_classEscape {p : Member × List Token} (h : classEscape unicode c tokens = some p) :
    finds (s.goto (escaped true c)) tokens = finds (s.goto .members) p.2 := by
  have hother : ∀ {rest : List Token}, c ≠ 'N' →
      finds (s.goto (escaped true c)) rest = finds (s.goto .members) rest := by
    intro rest hN
    rw [escaped, if_neg hN]
    rfl
  unfold classEscape at h
  split at h
  · next hcode =>
    obtain rfl := Option.some.inj h
    refine hother ?_
    rintro rfl
    cases hcode
  · next hmember =>
    obtain rfl := Option.some.inj h
    refine hother ?_
    rintro rfl
    cases hmember
  split at h
  · next hdigit =>
    obtain ⟨-, rfl⟩ := guarded_eq_some.mp h
    rw [hother]
    · exact finds_getWhile (@goto_base_ne_python s true) fun d hd =>
        @next_plain s true d (octDigit_plain hd)
    · rintro rfl
      exact absurd hdigit (by decide)
  split at h
  · cases h
  · obtain ⟨q, hq, h⟩ := Option.bind_eq_some_iff.mp h
    obtain rfl := Option.some.inj h
    exact finds_codeEscape hq

theorem finds_readMember {p : Member × List Token} (h : readMember unicode t tokens = some p) :
    finds (s.member t) tokens = finds (s.goto .members) p.2 := by
  cases t with
  | esc c => exact finds_classEscape h
  | chr c =>
    obtain rfl := Option.some.inj h
    rfl

/-- In a set a token that does not end it is a member. -/
theorem finds_members (ht : t ≠ .chr ']') :
    finds (s.goto .members) (t :: tokens) = finds (s.member t) tokens := by
  rw [finds_cons (by simp [goto])]
  change finds (if t = .chr ']' then _ else _) tokens = _
  rw [if_neg ht]
  cases t <;> rfl

theorem finds_readElement {q : (List Member × Bool) × List Token}
    (h : readElement unicode t tokens = some q) :
    finds (s.member t) tokens = finds (s.goto (if q.1.2 then .items else .members)) q.2 := by
  obtain ⟨⟨low, rest⟩, hlow, h⟩ := Option.bind_eq_some_iff.mp h
  rw [finds_readMember hlow]
  have hdash : ∀ {rest : List Token}, finds (s.goto .members) (.chr '-' :: rest) =
      finds (s.goto .members) rest := by
    intro rest
    rw [finds_members (by decide)]
    rfl
  dsimp only at h ⊢
  split at h
  · obtain rfl := Option.some.inj h
    rw [hdash, finds_cons (by simp [goto])]
    rfl
  · next t' rest' _ hclose =>
    obtain ⟨⟨high, rest''⟩, hhigh, h⟩ := Option.bind_eq_some_iff.mp h
    obtain ⟨range, -, h⟩ := Option.bind_eq_some_iff.mp h
    obtain rfl := Option.some.inj h
    rw [hdash, finds_members hclose, finds_readMember hhigh]
    rfl
  · cases h
  · obtain rfl := Option.some.inj h
    rfl

theorem readElement_ne_nil {q : (List Member × Bool) × List Token}
    (h : readElement unicode t tokens = some q) :
    q.1.1 ≠ [] := by
  obtain ⟨⟨low, rest⟩, -, h⟩ := Option.bind_eq_some_iff.mp h
  dsimp only at h
  split at h
  · obtain rfl := Option.some.inj h
    simp
  · obtain ⟨high, -, h⟩ := Option.bind_eq_some_iff.mp h
    obtain ⟨range, -, h⟩ := Option.bind_eq_some_iff.mp h
    obtain rfl := Option.some.inj h
    simp
  · cases h
  · obtain rfl := Option.some.inj h
    simp

/-- Whether a bracket would be the first member or the end. -/
def elementMode (members : List Member) : Mode := if members = [] then .setFirst else .members

theorem finds_elementMode (ht : t = .chr ']' → members = []) :
    finds (s.goto (elementMode members)) (t :: tokens) = finds (s.member t) tokens := by
  by_cases hnil : members = []
  · rw [elementMode, if_pos hnil, finds_cons (by simp [goto])]
    cases t <;> rfl
  · rw [elementMode, if_neg hnil, finds_members fun hclose => hnil (ht hclose)]

theorem finds_readElements {q : List Member × List Token}
    (h : readElements unicode members tokens = some q) :
    finds (s.goto (elementMode members)) tokens = finds (s.goto .items) q.2 := by
  induction members, tokens using readElements.induct unicode with
  | case1 members => simp [readElements] at h
  | case2 members t rest hend =>
    rw [readElements_cons, if_pos hend] at h
    obtain rfl := Option.some.inj h
    obtain ⟨rfl, hne⟩ := hend
    rw [elementMode, if_neg hne, finds_cons (by simp [goto])]
    rfl
  | case3 members t rest hend helement =>
    rw [readElements_cons, if_neg hend, helement] at h
    cases h
  | case4 members t rest hend added rest' helement =>
    rw [readElements_cons, if_neg hend, helement] at h
    obtain rfl := Option.some.inj h
    rw [finds_elementMode fun ht => not_not.mp fun hne => hend ⟨ht, hne⟩,
      finds_readElement helement]
    rfl
  | case5 members t rest hend added rest' helement ih =>
    rw [readElements_cons, if_neg hend, helement] at h
    have hne : members ++ added ≠ [] :=
      List.append_ne_nil_of_right_ne_nil _ (readElement_ne_nil helement)
    rw [finds_elementMode fun ht => not_not.mp fun hne => hend ⟨ht, hne⟩,
      finds_readElement helement, ← ih h, elementMode, if_neg hne]
    rfl

end Sets

/-- Where the scanner is after a lexeme that began between two items. -/
def after (s : Scanner) : Lexeme → Scanner
  | .opening (.scope on off) => s.push ((s.verbose || on.contains 'x') && !off.contains 'x')
  | .opening _ => s.push s.verbose
  | .flags letters => { s with mode := .items, verbose := s.verbose || letters.contains 'x' }
  | .close => s.pop
  | _ => s.goto .items

/-- The scanner finds that the lexeme is a named backreference, or it goes on after it. -/
def Follows (s s' : Scanner) (tokens : List Token) (p : Lexeme × List Token) : Prop :=
  finds s' tokens = (p.1.named || finds (s.after p.1) p.2)

section Lexemes

variable {unicode : Unicode} {s : Scanner} {c : Char} {t : Token} {n : Nat} {tokens : List Token}
  {p : Lexeme × List Token}

theorem follows_set (h : readSet unicode tokens = some p) :
    Follows s (s.goto .setStart) tokens p := by
  unfold readSet at h
  split at h
  · next rest =>
    obtain ⟨q, hq, rfl⟩ := Option.map_eq_some_iff.mp h
    rw [Follows, finds_cons (by simp [goto])]
    exact finds_readElements hq
  · next hcaret =>
    obtain ⟨q, hq, rfl⟩ := Option.map_eq_some_iff.mp h
    have hfirst : finds (s.goto .setFirst) tokens = finds (s.goto .items) q.2 :=
      finds_readElements hq
    rw [Follows]
    refine Eq.trans ?_ hfirst
    cases tokens with
    | nil => rfl
    | cons t rest =>
      have ht : t ≠ .chr '^' := fun ht => hcaret rest (by rw [ht])
      rw [finds_cons (by simp [goto]), finds_cons (by simp [goto])]
      have hstart : (s.goto .setStart).next t = s.member t := by
        change (if t = .chr '^' then _ else _) = _
        rw [if_neg ht]
        cases t <;> rfl
      have hnext : (s.goto .setFirst).next t = s.member t := by
        cases t <;> rfl
      rw [hstart, hnext]

theorem plain_digit (h : isDigit c) : c ∉ "[()#]".toList := by
  have hdigits : "0123456789".toList.all (fun c => !"[()#]".toList.contains c) = true := by decide
  exact not_mem_of_all hdigits (List.contains_iff_mem.mp h)

/-- Between two items a character that opens and closes nothing changes nothing. -/
theorem finds_plain (hc : c ∉ "[()#]".toList) :
    finds (s.goto .items) (.chr c :: tokens) = finds (s.goto .items) tokens := by
  rw [finds_cons (by simp [goto])]
  exact congrArg (finds · tokens) (@next_plain s false c hc)

theorem finds_digits (allowed : Char → Bool) (hallowed : ∀ c, allowed c → c ∉ "[()#]".toList) :
    finds (s.goto .items) tokens = finds (s.goto .items) (getWhile allowed n tokens).2 :=
  finds_getWhile (by simp [goto]) fun c hc => @next_plain s false c (hallowed c hc)

theorem follows_reference (h : readReference c tokens = some p) :
    Follows s (s.goto .items) tokens p := by
  unfold readReference at h
  split at h
  · next d rest =>
    split at h
    · obtain rfl := Option.some.inj h
      rfl
    next hd =>
    have hd : d ∉ "[()#]".toList := plain_digit (by simpa using hd)
    split at h
    · next e rest' =>
      split at h
      · next hoct =>
        obtain ⟨-, rfl⟩ := guarded_eq_some.mp h
        have he : e ∉ "[()#]".toList := octDigit_plain (by simp_all)
        rw [Follows, finds_plain hd, finds_plain he]
        rfl
      · obtain rfl := Option.some.inj h
        rw [Follows, finds_plain hd]
        rfl
    · obtain rfl := Option.some.inj h
      rw [Follows, finds_plain hd]
      rfl
  · obtain rfl := Option.some.inj h
    rfl

theorem follows_escape (h : readEscape unicode c tokens = some p) :
    Follows s (s.goto (escaped false c)) tokens p := by
  have hother : ∀ {rest : List Token}, c ≠ 'N' →
      finds (s.goto (escaped false c)) rest = finds (s.goto .items) rest := by
    intro rest hN
    rw [escaped, if_neg hN]
    rfl
  unfold readEscape at h
  split at h
  · next hnode =>
    obtain rfl := Option.some.inj h
    refine hother ?_
    rintro rfl
    cases hnode
  · next hcode =>
    obtain rfl := Option.some.inj h
    refine hother ?_
    rintro rfl
    cases hcode
  split at h
  · next hzero =>
    obtain rfl := Option.some.inj h
    rw [Follows, hother (by rw [hzero]; decide)]
    exact finds_digits isOctDigit fun d hd => octDigit_plain hd
  split at h
  · next hdigit =>
    rw [Follows, hother (by rintro rfl; exact absurd hdigit (by decide))]
    exact follows_reference h
  · obtain ⟨q, hq, h⟩ := Option.bind_eq_some_iff.mp h
    obtain rfl := Option.some.inj h
    have hcode : finds (s.goto (escaped false c)) tokens = finds (s.goto (base false)) q.2 :=
      finds_codeEscape hq
    exact hcode

theorem finds_kind : finds (s.goto .items) (readKind tokens).2 = finds (s.goto .items) tokens := by
  unfold readKind
  split
  · exact (finds_plain (by decide)).symm
  · exact (finds_plain (by decide)).symm
  · rfl

theorem follows_quantified {least : Nat} {most : Option Nat} :
    Follows s (s.goto .items) tokens (quantified least most tokens) :=
  finds_kind.symm

theorem finds_bounds {q : (List Char × List Char) × List Token} (h : readBounds tokens = some q) :
    finds (s.goto .items) tokens = finds (s.goto .items) q.2 := by
  unfold readBounds at h
  split at h
  · cases h
  rw [finds_digits (n := tokens.length) isDigit fun c hc => plain_digit hc]
  dsimp only at h
  split at h
  · next rest heq =>
    obtain rfl := Option.some.inj h
    rw [heq, finds_plain (by decide)]
  · next rest heq =>
    rw [heq, finds_plain (by decide), finds_digits (n := rest.length) isDigit fun c hc =>
      plain_digit hc]
    split at h
    · next rest' heq' =>
      obtain rfl := Option.some.inj h
      rw [heq', finds_plain (by decide)]
    · cases h
  · cases h

theorem follows_braces (h : readBraces tokens = some p) : Follows s (s.goto .items) tokens p := by
  unfold readBraces at h
  split at h
  · obtain rfl := Option.some.inj h
    rfl
  · next low high rest hbounds =>
    obtain ⟨least, -, h⟩ := Option.bind_eq_some_iff.mp h
    obtain ⟨most, -, h⟩ := Option.bind_eq_some_iff.mp h
    obtain ⟨-, rfl⟩ := guarded_eq_some.mp h
    rw [Follows, finds_bounds hbounds]
    exact finds_kind.symm

theorem flag_cases (h : isFlag c) : c ∉ ")-:P<#(".toList := by
  have hletters : "iLmsxatu".toList.all (fun c => !")-:P<#(".toList.contains c) = true := by decide
  exact not_mem_of_all hletters (List.contains_iff_mem.mp h)

theorem chr_beq : (Token.chr c == .chr 'x') = (c == 'x') := by
  rw [Bool.eq_iff_iff, beq_iff_eq, beq_iff_eq, Token.chr.injEq]

theorem contains_flag {letters : List Char} :
    (c :: letters).contains 'x' = (c == 'x' || letters.contains 'x') := by
  rw [List.contains_cons, BEq.comm]

theorem finds_flagsOn {x : Bool} : finds (s.goto (.flagsOn x)) tokens =
    finds (s.goto (.flagsOn (x || (getWhile isFlag n tokens).1.contains 'x')))
      (getWhile isFlag n tokens).2 := by
  induction n generalizing x tokens with
  | zero => simp [getWhile]
  | succ n ih =>
    unfold getWhile
    split
    · next k c rest heq =>
      obtain rfl := Nat.succ.inj heq
      split
      · next hc =>
        have hne : c ≠ ')' ∧ c ≠ '-' ∧ c ≠ ':' := by
          have := flag_cases hc
          simp_all
        have hnext : (s.goto (.flagsOn x)).next (.chr c) = s.goto (.flagsOn (x || c == 'x')) := by
          simp [next, goto, hne, chr_beq]
        rw [finds_cons (by simp [goto]), hnext, ih, contains_flag, Bool.or_assoc]
      · simp
    · simp

theorem finds_flagsOff {on off : Bool} : finds (s.goto (.flagsOff on off)) tokens =
    finds (s.goto (.flagsOff on (off || (getWhile isFlag n tokens).1.contains 'x')))
      (getWhile isFlag n tokens).2 := by
  induction n generalizing off tokens with
  | zero => simp [getWhile]
  | succ n ih =>
    unfold getWhile
    split
    · next k c rest heq =>
      obtain rfl := Nat.succ.inj heq
      split
      · next hc =>
        have hne : c ≠ ':' := by
          have := flag_cases hc
          simp_all
        have hnext : (s.goto (.flagsOff on off)).next (.chr c) =
            s.goto (.flagsOff on (off || c == 'x')) := by
          simp [next, goto, hne, chr_beq]
        rw [finds_cons (by simp [goto]), hnext, ih, contains_flag, Bool.or_assoc]
      · simp
    · simp

theorem getWhile_of_nil {allowed : Char → Bool} (h : (getWhile allowed n tokens).1 = []) :
    (getWhile allowed n tokens).2 = tokens := by
  unfold getWhile at h ⊢
  split
  · split
    · next hc => simp [hc] at h
    · rfl
  · rfl

/-- The letters after `(?` are those that are turned on. -/
theorem finds_letters (h : (getWhile isFlag tokens.length tokens).1 ≠ []) :
    finds (s.goto .extension) tokens =
    finds (s.goto (.flagsOn ((getWhile isFlag tokens.length tokens).1.contains 'x')))
      (getWhile isFlag tokens.length tokens).2 := by
  cases tokens with
  | nil => exact absurd rfl h
  | cons t rest =>
    cases t with
    | esc c => exact absurd rfl h
    | chr c =>
      by_cases hc : isFlag c
      · have hne := flag_cases hc
        have hnext : (s.goto .extension).next (.chr c) = s.goto (.flagsOn (c == 'x')) := by
          change (s.goto .extension).extend (.chr c) = _
          unfold extend
          split <;> simp_all [goto]
        have hletters : getWhile isFlag (Token.chr c :: rest).length (Token.chr c :: rest) =
            (c :: (getWhile isFlag rest.length rest).1, (getWhile isFlag rest.length rest).2) := by
          rw [List.length_cons, getWhile, if_pos hc]
        rw [finds_cons (by simp [goto]), hnext, finds_flagsOn (n := rest.length), hletters,
          contains_flag]
      · exact absurd (by simp [getWhile, hc]) h

theorem follows_flags (h : readFlags tokens = some p) : Follows s (s.goto .extension) tokens p := by
  unfold readFlags at h
  dsimp only at h
  obtain ⟨-, -, h⟩ := Option.bind_eq_some_iff.mp h
  split at h
  · next rest heq =>
    obtain ⟨hon, rfl⟩ := guarded_eq_some.mp h
    rw [Follows, finds_letters hon, heq, finds_cons (by simp [goto])]
    rfl
  · next rest heq =>
    obtain ⟨⟨hon, -⟩, rfl⟩ := guarded_eq_some.mp h
    rw [Follows, finds_letters hon, heq, finds_cons (by simp [goto])]
    simp [next, goto, after, Lexeme.named, push]
  · next rest heq =>
    have hdash : finds (s.goto .extension) tokens =
        finds (s.goto (.flagsOff ((getWhile isFlag tokens.length tokens).1.contains 'x') false))
          rest := by
      by_cases hon : (getWhile isFlag tokens.length tokens).1 = []
      · have hall : (getWhile isFlag tokens.length tokens).2 = tokens := getWhile_of_nil hon
        rw [hon, ← hall, heq, finds_cons (by simp [goto])]
        rfl
      · rw [finds_letters hon, heq, finds_cons (by simp [goto])]
        rfl
    obtain ⟨-, -, h⟩ := Option.bind_eq_some_iff.mp h
    split at h
    · next rest' heq' =>
      obtain rfl := Option.some.inj h
      rw [Follows, hdash, finds_flagsOff (n := rest.length), heq', finds_cons (by simp [goto])]
      simp [next, goto, after, Lexeme.named, push]
    · cases h
  · cases h

theorem follows_extension (h : readExtension unicode tokens = some p) :
    Follows s (s.goto .extension) tokens p := by
  have hone : ∀ {t : Token} {rest : List Token}, finds (s.goto .extension) (t :: rest) =
      finds (s.extend t) rest := by
    intro t rest
    rw [finds_cons (by simp [goto])]
    cases t <;> rfl
  unfold readExtension at h
  split at h
  · obtain ⟨q, hq, h⟩ := Option.bind_eq_some_iff.mp h
    obtain ⟨-, rfl⟩ := guarded_eq_some.mp h
    -- the name up to its end
    rw [Follows, hone]
    change finds (s.goto .groupName) _ = _
    rw [finds_takeUntil (by simp [goto]) (fun t ht => by simp [next, goto, ht])
      (takeUntil_of_getUntil hq)]
    rfl
  · obtain ⟨q, hq, h⟩ := Option.bind_eq_some_iff.mp h
    obtain ⟨-, rfl⟩ := guarded_eq_some.mp h
    rw [Follows, hone]
    rfl
  · obtain rfl := Option.some.inj h
    have hpush : s.after (.opening (.scope [] [])) = s.push s.verbose := by
      simp [after]
    rw [Follows, hone, hpush]
    rfl
  · obtain ⟨q, hq, rfl⟩ := Option.map_eq_some_iff.mp h
    rw [Follows, hone]
    change finds (s.goto .comment) _ = _
    rw [finds_takeUntil (by simp [goto]) (fun t ht => by simp [next, goto, ht]) hq]
    rfl
  · obtain rfl := Option.some.inj h
    rw [Follows, hone]
    rfl
  · obtain rfl := Option.some.inj h
    rw [Follows, hone]
    rfl
  · obtain rfl := Option.some.inj h
    rw [Follows, hone]
    rfl
  · obtain rfl := Option.some.inj h
    rw [Follows, hone]
    rfl
  · obtain ⟨q, hq, h⟩ := Option.bind_eq_some_iff.mp h
    obtain rfl := Option.some.inj h
    rw [Follows, hone]
    change finds (s.goto .condition) _ = _
    rw [finds_takeUntil (by simp [goto]) (fun t ht => by simp [next, goto, ht])
      (takeUntil_of_getUntil hq)]
    rfl
  · obtain rfl := Option.some.inj h
    rw [Follows, hone]
    rfl
  · exact follows_flags h

theorem follows_group (h : readGroup unicode tokens = some p) :
    Follows s (s.goto .opening) tokens p := by
  unfold readGroup at h
  split at h
  · next rest =>
    rw [Follows, finds_cons (by simp [goto])]
    exact follows_extension h
  · next hquestion =>
    obtain rfl := Option.some.inj h
    rw [Follows]
    cases tokens with
    | nil => rfl
    | cons t rest =>
      have ht : t ≠ .chr '?' := fun ht => hquestion rest (by rw [ht])
      have hopen : (s.goto .opening).next t = (s.push s.verbose).next t := by
        change (if t = .chr '?' then _ else _) = _
        rw [if_neg ht]
        rfl
      rw [finds_cons (by simp [goto]), hopen]
      exact (finds_cons (by simp [push])).symm

/-- A character that opens and closes nothing. -/
theorem item_plain (hc : c ∉ "[()".toList) (hplain : (s.verbose && c == '#') = false) :
    (s.goto .items).item (.chr c) = s.goto .items := by
  unfold item
  split
  · simp_all
  · simp_all
  · simp_all
  · simp_all
  · simp_all [goto]

theorem follows_item (hplain : (s.verbose && c == '#') = false)
    (h : readItem unicode c tokens = some p) :
    Follows s ((s.goto .items).item (.chr c)) tokens p := by
  have hsame : ∀ {lexeme : Lexeme}, c ∉ "[()".toList → lexeme.named = false →
      s.after lexeme = s.goto .items →
      some (lexeme, tokens) = some p → Follows s ((s.goto .items).item (.chr c)) tokens p := by
    rintro lexeme hc hnamed hafter heq
    obtain rfl := Option.some.inj heq
    rw [Follows, item_plain hc hplain, hnamed, hafter]
    rfl
  have hquantified : ∀ {least most}, c ∉ "[()".toList →
      some (quantified least most tokens) = some p →
      Follows s ((s.goto .items).item (.chr c)) tokens p := by
    rintro least most hc heq
    obtain rfl := Option.some.inj heq
    rw [item_plain hc hplain]
    exact follows_quantified
  unfold readItem at h
  split at h
  · exact hsame (by decide) rfl rfl h
  · obtain rfl := Option.some.inj h
    rfl
  · exact follows_set h
  · exact hquantified (by decide) h
  · exact hquantified (by decide) h
  · exact hquantified (by decide) h
  · rw [item_plain (by decide) hplain]
    exact follows_braces h
  · exact hsame (by decide) rfl rfl h
  · exact follows_group h
  · exact hsame (by decide) rfl rfl h
  · exact hsame (by decide) rfl rfl h
  · refine hsame ?_ rfl rfl h
    simp_all

theorem whitespace_plain (h : isWhitespace c) : c ∉ "[()#".toList := by
  have hspaces : " \t\n\r\x0b\x0c".toList.all (fun c => !"[()#".toList.contains c) = true := by
    decide
  exact not_mem_of_all hspaces (List.contains_iff_mem.mp h)

theorem follows_char (h : readChar unicode s.verbose c tokens = some p) :
    Follows s ((s.goto .items).item (.chr c)) tokens p := by
  unfold readChar at h
  split at h
  · next hspace =>
    obtain rfl := Option.some.inj h
    have hc := whitespace_plain (by simp_all : isWhitespace c)
    rw [Follows, item_plain (by simp_all) (by simp_all)]
    rfl
  split at h
  · next hcomment =>
    obtain rfl := Option.some.inj h
    have hline : (s.goto .items).item (.chr c) = s.goto .line := by
      simp_all [item, goto]
    rw [Follows, hline]
    exact finds_dropLine
  · next hplain => exact follows_item (by simpa using hplain) h

/-- The scanner keeps up with the parser. -/
theorem follows_lexeme (h : readLexeme unicode s.verbose t tokens = some p) :
    Follows s ((s.goto .items).item t) tokens p := by
  cases t with
  | esc c => exact follows_escape h
  | chr c => exact follows_char h

end Lexemes

end Scanner

/-! ### Runs -/

/-- Where the scanner is when the parser is in this state. -/
def Machine.scanner (m : Machine) : Scanner where
  mode := .items
  verbose := m.top.verbose
  enclosing := m.enclosing.map Frame.verbose

section Runs

variable {unicode : Unicode} {m m' : Machine}

theorem enter_scanner {opening : Opening} (h : m.enter unicode opening = some m') :
    m'.scanner = m.scanner.after (.opening opening) := by
  unfold Machine.enter at h
  split at h
  · obtain ⟨-, rfl⟩ := guarded_eq_some.mp h
    rfl
  · obtain rfl := Option.some.inj h
    rfl
  · obtain rfl := Option.some.inj h
    rfl
  · next ahead positive =>
    obtain rfl := Option.some.inj h
    cases ahead <;> rfl
  · obtain ⟨number, -, h⟩ := Option.bind_eq_some_iff.mp h
    obtain ⟨-, rfl⟩ := guarded_eq_some.mp h
    split <;> rfl

theorem close_scanner (h : m.close = some m') : m'.scanner = m.scanner.after .close := by
  unfold Machine.close at h
  split at h
  · cases h
  next outer rest henclosing =>
  have hpop : m.scanner.after .close =
      { mode := .items, verbose := outer.verbose, enclosing := rest.map Frame.verbose } := by
    simp [Machine.scanner, Scanner.after, Scanner.pop, henclosing]
  rw [hpop]
  split at h
  · cases h
  · obtain rfl := Option.some.inj h
    rfl
  · obtain rfl := Option.some.inj h
    rfl
  · obtain rfl := Option.some.inj h
    rfl
  · obtain rfl := Option.some.inj h
    rfl
  · split at h
    · obtain rfl := Option.some.inj h
      rfl
    · obtain rfl := Option.some.inj h
      rfl
    · cases h

/-- A step of the parser takes the scanner past the lexeme. -/
theorem step_scanner {lexeme : Lexeme} (h : m.step unicode lexeme = some m') :
    m'.scanner = m.scanner.after lexeme := by
  have hrefer : ∀ {group}, m.refer group = some m' → m'.scanner = m.scanner := by
    intro group hrefer
    obtain ⟨-, rfl⟩ := guarded_eq_some.mp hrefer
    rfl
  cases lexeme with
  | skip =>
    obtain rfl := Option.some.inj h
    rfl
  | item node =>
    obtain rfl := Option.some.inj h
    rfl
  | reference group => exact hrefer h
  | namedReference name =>
    obtain ⟨group, -, h⟩ := Option.bind_eq_some_iff.mp h
    exact hrefer h
  | quantifier kind least most =>
    change m.quantify kind least most = some m' at h
    unfold Machine.quantify at h
    split at h
    · cases h
    · cases h
    · cases h
    · obtain rfl := Option.some.inj h
      rfl
  | opening opening => exact enter_scanner h
  | flags letters =>
    obtain ⟨-, rfl⟩ := guarded_eq_some.mp h
    rfl
  | bar =>
    change m.bar = some m' at h
    unfold Machine.bar at h
    split at h
    · cases h
    · obtain rfl := Option.some.inj h
      rfl
  | close => exact close_scanner h

/-- A run without references by number and lookaround reads a safe pattern, unless the scanner finds
a named reference in it. -/
theorem run_safe {tokens : List Token} {p : Pattern} (h : Machine.run unicode m tokens = some p)
    (hclean : Clean tokens) :
    p.tree.safe ↔ m.Safe ∧ m.scanner.finds tokens = false := by
  revert hclean
  refine Machine.run_induction (motive := fun m tokens p =>
    Clean tokens → (p.tree.safe ↔ m.Safe ∧ m.scanner.finds tokens = false)) ?_ ?_ h
  · intro m p hfinish _
    rw [finish_safe hfinish, Scanner.finds]
    simp
  · intro m t rest lexeme rest' m' p hlexeme hstep ih hclean
    have hrest :
        Clean rest' := hclean.suffix ((readLexeme_suffix hlexeme).trans (List.suffix_cons _ _))
    have hfollows : m.scanner.finds (t :: rest) = (lexeme.named || m'.scanner.finds rest') := by
      rw [step_scanner hstep]
      have hfollows :
          Scanner.Follows m.scanner ((m.scanner.goto .items).item t) rest (lexeme, rest') :=
        Scanner.follows_lexeme hlexeme
      rw [Scanner.finds_cons (by simp [Machine.scanner])]
      exact hfollows
    have hsafe : lexeme.Safe ↔ lexeme.named = false :=
      readLexeme_tame hlexeme (hclean _ List.suffix_rfl)
    rw [ih hrest, step_safe hstep, hfollows, hsafe, Bool.or_eq_false_iff]
    tauto

end Runs

/-- The pattern has `(?P=` where an item may stand: outside of escapes, sets, names and comments. -/
def namesReference (pattern : List Char) : Bool :=
  (tokenize pattern).any fun tokens => Scanner.finds {} tokens

/-- A pattern that was read, and has no references by number and no lookaround, is safe unless it
has a named reference. -/
theorem parse_safe {unicode : Unicode} {pattern : List Char} {tokens : List Token} {p : Pattern}
    (h : parse unicode pattern = some p) (htokens : tokenize pattern = some tokens)
    (hclean : Clean tokens) :
    p.tree.safe ↔ namesReference pattern = false := by
  rw [parse, htokens] at h
  rw [run_safe h hclean, namesReference, htokens]
  have hstart : Machine.start.Safe := by
    simp [Machine.start, Machine.Safe, Frame.Safe]
  exact and_iff_right hstart

end AssetStore.Lib.Regex
