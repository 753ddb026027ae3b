import AssetStore.Lib.Regex

/-! The parser of regular expressions. It takes lexeme after lexeme; the groups that are open are
frames on a stack, and a group that closes becomes an item of the frame around it. A pattern that
was read is without backreferences and lookaround exactly when no lexeme was one. -/

namespace AssetStore.Lib.Regex

/-! ### Frames -/

/-- What a frame becomes when it is closed. -/
inductive FrameKind
  | pattern
  | capture (number : Nat)
  | scope (on off : List Char)
  | atomic
  | look (ahead positive : Bool) (groups : Option Nat)
  | condition (group : Nat)
  deriving DecidableEq, Repr

/-- A group that is open: its branches and, in the last one, its items, the latest first. -/
structure Frame where
  kind : FrameKind
  verbose : Bool
  branches : List Node := []
  items : List Node := []

def sequence (items : List Node) : Node := items.foldl (fun body item => .cat item body) .empty

/-- The branches of a frame as one node. -/
def Frame.body (f : Frame) : Node :=
  f.branches.foldl (fun body branch => .branch branch body) (sequence f.items)

/-- The state of the parser: `flags`, `groups`, `groupdict`, the groups with a width,
`lookbehindgroups` and `grouprefpos` of the source, and the groups that are open. -/
structure Machine where
  flags : List Char := []
  groups : Nat := 1
  names : List (List Char × Nat) := []
  closed : List Nat := []
  lookbehind : Option Nat := none
  conditions : List Nat := []
  top : Frame
  enclosing : List Frame := []

/-- A pattern that was read. -/
structure Pattern where
  tree : Node
  flags : List Char
  groups : Nat
  groupindex : List (List Char × Nat)

namespace Machine

variable (unicode : Unicode) (m : Machine)

def start : Machine where
  top := { kind := .pattern, verbose := false }

def append (node : Node) : Machine := { m with top := { m.top with items := node :: m.top.items } }

def push (kind : FrameKind) (verbose : Bool) : Machine :=
  { m with top := { kind, verbose }, enclosing := m.top :: m.enclosing }

/-- `State.checkgroup`. -/
def checkGroup (group : Nat) : Bool := decide (group < m.groups) && m.closed.contains group

/-- `State.checklookbehindgroup`. -/
def checkLookbehind (group : Nat) : Bool :=
  m.lookbehind.all fun limit => m.checkGroup group && decide (group < limit)

def refer (group : Nat) : Option Machine := do
  guard (m.checkGroup group ∧ m.checkLookbehind group)
  return m.append (.backreference group)

/-- A quantifier takes the last item, which may be no anchor and no repetition. -/
def quantify (kind : Repetition) (least : Nat) (most : Option Nat) : Option Machine :=
  match m.top.items with
  | [] => none
  | .anchor _ :: _ => none
  | .repeated .. :: _ => none
  | item :: items =>
    some { m with top := { m.top with items := .repeated kind least most item :: items } }

/-- `MAXGROUPS`. -/
def maxGroups : Nat := 1073741823

/-- `State.opengroup`. -/
def openGroup (name : Option (List Char)) : Option Machine := do
  guard (m.groups + 1 ≤ maxGroups ∧ ∀ n ∈ name, m.names.lookup n = none)
  let opened := { m with groups := m.groups + 1, names := name.toList.map (·, m.groups) ++ m.names }
  return opened.push (.capture m.groups) m.top.verbose

/-- The number of the group that a condition names. -/
def conditionGroup (group : List Char) : Option Nat :=
  if unicode.isIdentifier group then m.names.lookup group
  else do
    guard (group.all isDigit ∧ group.length ≤ maxDigits ∧ 0 < ofDigits 10 group ∧
      ofDigits 10 group < maxGroups)
    return ofDigits 10 group

def openCondition (group : List Char) : Option Machine := do
  let number ← m.conditionGroup unicode group
  guard (m.checkLookbehind number)
  let noted := if unicode.isIdentifier group then m
    else { m with conditions := number :: m.conditions }
  return noted.push (.condition number) m.top.verbose

def openLook (ahead positive : Bool) : Machine :=
  let within := if ahead then m else { m with lookbehind := some (m.lookbehind.getD m.groups) }
  within.push (.look ahead positive m.lookbehind) m.top.verbose

def enter (opening : Opening) : Option Machine :=
  match opening with
  | .capture name => m.openGroup name
  | .scope on off =>
    some (m.push (.scope on off) ((m.top.verbose || on.contains 'x') && !off.contains 'x'))
  | .atomic => some (m.push .atomic m.top.verbose)
  | .look ahead positive => some (m.openLook ahead positive)
  | .condition group => m.openCondition unicode group

/-- The flags of the pattern stand before all else in it, so a bar leaves `verbose` as it is. -/
def bar : Option Machine :=
  match m.top.kind, m.top.branches with
  | .condition _, _ :: _ => none
  | _, _ => some { m with top := { m.top with branches := sequence m.top.items :: m.top.branches,
                                              items := [] } }

/-- The frame around the group that closes, with the group as its last item. -/
def leave (outer : Frame) (rest : List Frame) (node : Node) : Machine :=
  { m with top := { outer with items := node :: outer.items }, enclosing := rest }

def close : Option Machine :=
  match m.enclosing with
  | [] => none
  | outer :: rest =>
    match m.top.kind with
    | .pattern => none
    | .capture number =>
      some { m.leave outer rest (.group number m.top.body) with closed := number :: m.closed }
    | .scope on off => some (m.leave outer rest (.scope on off m.top.body))
    | .atomic => some (m.leave outer rest (.atomic m.top.body))
    | .look ahead positive groups =>
      some { m.leave outer rest (.look ahead positive m.top.body) with lookbehind := groups }
    | .condition group =>
      match m.top.branches with
      | [] => some (m.leave outer rest (.conditional group (sequence m.top.items) .empty))
      | [yes] => some (m.leave outer rest (.conditional group yes (sequence m.top.items)))
      | _ => none

/-- Flags of the whole pattern may only stand at its beginning. -/
def setFlags (letters : List Char) : Option Machine := do
  guard (m.enclosing = [] ∧ m.top.branches = [] ∧ m.top.items = [])
  return { m with flags := letters ++ m.flags,
                  top := { m.top with verbose := m.top.verbose || letters.contains 'x' } }

/-- What one lexeme does. -/
def step : Lexeme → Option Machine
  | .skip => some m
  | .item node => some (m.append node)
  | .reference group => m.refer group
  | .namedReference name => do
    let group ← m.names.lookup name
    m.refer group
  | .quantifier kind least most => m.quantify kind least most
  | .opening opening => m.enter unicode opening
  | .flags letters => m.setFlags letters
  | .bar => m.bar
  | .close => m.close

/-- The end of the pattern: no frame is left but its own, and every condition names a group that
there is. -/
def finish : Option Pattern := do
  guard (m.top.kind = .pattern ∧ m.enclosing = [] ∧ ¬('a' ∈ m.flags ∧ 'u' ∈ m.flags) ∧
    ∀ group ∈ m.conditions, group < m.groups)
  return { tree := m.top.body, flags := m.flags, groups := m.groups, groupindex := m.names }

/-- Lexeme after lexeme to the end. -/
def run (m : Machine) : List Token → Option Pattern
  | [] => m.finish
  | t :: rest =>
    match _h : readLexeme unicode m.top.verbose t rest with
    | none => none
    | some (lexeme, rest') =>
      match m.step unicode lexeme with
      | none => none
      | some m' => run m' rest'
termination_by tokens => tokens.length
decreasing_by
  have hle : rest'.length ≤ rest.length := (readLexeme_suffix _h).length_le
  simp only [List.length_cons]
  omega

theorem run_cons {m : Machine} {t : Token} {rest : List Token} : run unicode m (t :: rest) =
    (readLexeme unicode m.top.verbose t rest).bind fun p => (m.step unicode p.1).bind fun m' =>
      run unicode m' p.2 := by
  rw [run]
  split
  · next h => rw [h]; rfl
  · next lexeme rest' h =>
    rw [h, Option.bind_some]
    cases m.step unicode lexeme <;> rfl

/-- What holds of the state before a run and is kept by every step of it holds at the end. -/
theorem run_induction {unicode : Unicode} {motive : Machine → List Token → Pattern → Prop}
    (finish : ∀ m p, m.finish = some p → motive m [] p)
    (step : ∀ m t rest lexeme rest' m' p, readLexeme unicode m.top.verbose t rest =
      some (lexeme, rest') →
      m.step unicode lexeme = some m' → motive m' rest' p → motive m (t :: rest) p)
    {m : Machine} {tokens : List Token} {p : Pattern} (h : run unicode m tokens = some p) :
    motive m tokens p := by
  induction hlength : tokens.length using Nat.strongRecOn generalizing m tokens with
  | _ n ih =>
    subst hlength
    cases tokens with
    | nil =>
      rw [run] at h
      exact finish m p h
    | cons t rest =>
      rw [run_cons] at h
      obtain ⟨⟨lexeme, rest'⟩, hlexeme, h⟩ := Option.bind_eq_some_iff.mp h
      obtain ⟨m', hstep, h⟩ := Option.bind_eq_some_iff.mp h
      have hshorter : rest'.length < (t :: rest).length :=
        Nat.lt_succ_of_le (readLexeme_suffix hlexeme).length_le
      exact step m t rest lexeme rest' m' p hlexeme hstep (ih _ hshorter h rfl)

end Machine

/-- `re._parser.parse`. -/
def parse (unicode : Unicode) (pattern : List Char) : Option Pattern := do
  let tokens ← tokenize pattern
  Machine.start.run unicode tokens

/-! ### Safe patterns -/

/-- A frame that will be closed without a backreference and without lookaround. -/
def Frame.Safe (f : Frame) : Prop :=
  (∀ ahead positive groups, f.kind ≠ .look ahead positive groups) ∧ (∀ p ∈ f.branches, p.safe) ∧
    ∀ p ∈ f.items, p.safe

def Machine.Safe (m : Machine) : Prop := m.top.Safe ∧ ∀ f ∈ m.enclosing, f.Safe

/-- A lexeme that makes no pattern unsafe. -/
def Lexeme.Safe : Lexeme → Prop
  | .item node => node.safe
  | .reference _ => False
  | .namedReference _ => False
  | .opening (.look ..) => False
  | _ => True

section Safe

variable {unicode : Unicode} {m m' : Machine} {f : Frame} {node : Node} {items : List Node}

theorem sequence_safe : (sequence items).safe ↔ ∀ p ∈ items, p.safe := by
  have hfold : ∀ body : Node, (items.foldl (fun body item => .cat item body) body).safe ↔
      body.safe ∧ ∀ p ∈ items, p.safe := by
    induction items with
    | nil => simp
    | cons item items ih =>
      intro body
      rw [List.foldl_cons, ih]
      simp only [Node.safe, Bool.and_eq_true, List.forall_mem_cons]
      tauto
  exact (hfold .empty).trans (and_iff_right rfl)

theorem body_safe : f.body.safe ↔ (∀ p ∈ f.branches, p.safe) ∧ ∀ p ∈ f.items, p.safe := by
  have hfold : ∀ (branches : List Node) (body : Node),
      (branches.foldl (fun body branch => .branch branch body) body).safe ↔
        (∀ p ∈ branches, p.safe) ∧ body.safe := by
    intro branches
    induction branches with
    | nil => simp
    | cons branch branches ih =>
      intro body
      rw [List.foldl_cons, ih]
      simp only [Node.safe, Bool.and_eq_true, List.forall_mem_cons]
      tauto
  rw [Frame.body, hfold, sequence_safe]

theorem append_safe : (m.append node).Safe ↔ m.Safe ∧ node.safe := by
  simp only [Machine.Safe, Machine.append, Frame.Safe, List.forall_mem_cons]
  tauto

theorem push_safe {kind : FrameKind} {verbose : Bool} : (m.push kind verbose).Safe ↔
    m.Safe ∧ ∀ ahead positive groups, kind ≠ .look ahead positive groups := by
  simp only [Machine.Safe, Machine.push, Frame.Safe, List.forall_mem_cons, List.not_mem_nil,
    false_implies, implies_true, and_true]
  tauto

theorem refer_safe {group : Nat} (h : m.refer group = some m') : ¬m'.Safe := by
  obtain ⟨-, rfl⟩ := guarded_eq_some.mp h
  rw [append_safe]
  simp [Node.safe]

theorem quantify_safe {kind : Repetition} {least : Nat} {most : Option Nat}
    (h : m.quantify kind least most = some m') :
    m'.Safe ↔ m.Safe := by
  unfold Machine.quantify at h
  split at h
  · cases h
  · cases h
  · cases h
  · next item items hitems =>
    obtain rfl := Option.some.inj h
    simp only [Machine.Safe, Frame.Safe, hitems, List.forall_mem_cons, Node.safe]

theorem enter_safe {opening : Opening} (h : m.enter unicode opening = some m') :
    m'.Safe ↔ m.Safe ∧ (Lexeme.opening opening).Safe := by
  unfold Machine.enter at h
  split at h
  · obtain ⟨-, rfl⟩ := guarded_eq_some.mp h
    rw [push_safe]
    simp [Lexeme.Safe, Machine.Safe]
  · obtain rfl := Option.some.inj h
    rw [push_safe]
    simp [Lexeme.Safe]
  · obtain rfl := Option.some.inj h
    rw [push_safe]
    simp [Lexeme.Safe]
  · obtain rfl := Option.some.inj h
    rw [Machine.openLook, push_safe]
    simp [Lexeme.Safe]
  · obtain ⟨number, -, h⟩ := Option.bind_eq_some_iff.mp h
    obtain ⟨-, rfl⟩ := guarded_eq_some.mp h
    rw [push_safe]
    split
    · simp [Lexeme.Safe]
    · simp [Lexeme.Safe, Machine.Safe]

theorem bar_safe (h : m.bar = some m') : m'.Safe ↔ m.Safe := by
  unfold Machine.bar at h
  split at h
  · cases h
  · obtain rfl := Option.some.inj h
    simp only [Machine.Safe, Frame.Safe, List.forall_mem_cons, sequence_safe, List.not_mem_nil,
      false_implies, implies_true, and_true]
    tauto

theorem leave_safe {outer : Frame} {rest : List Frame} : (m.leave outer rest node).Safe ↔
    node.safe ∧ outer.Safe ∧ ∀ f ∈ rest, f.Safe := by
  simp only [Machine.Safe, Machine.leave, Frame.Safe, List.forall_mem_cons]
  tauto

theorem close_safe (h : m.close = some m') : m'.Safe ↔ m.Safe := by
  unfold Machine.close at h
  split at h
  · cases h
  next outer rest henclosing =>
  -- the frame that closes is safe when the node it becomes is
  have hsafe : m.Safe ↔ m.top.Safe ∧ outer.Safe ∧ ∀ f ∈ rest, f.Safe := by
    rw [Machine.Safe, henclosing, List.forall_mem_cons]
  have hclosed : ∀ {node : Node}, (node.safe ↔ m.top.Safe) →
      ((m.leave outer rest node).Safe ↔ m.Safe) := by
    intro node hnode
    rw [leave_safe, hsafe, hnode]
  split at h
  · cases h
  · next number hkind =>
    obtain rfl := Option.some.inj h
    refine Iff.trans ?_ (@hclosed (.group number m.top.body) ?_)
    · rfl
    · rw [Node.safe, body_safe, Frame.Safe, hkind]
      simp
  · next on off hkind =>
    obtain rfl := Option.some.inj h
    refine hclosed ?_
    rw [Node.safe, body_safe, Frame.Safe, hkind]
    simp
  · next hkind =>
    obtain rfl := Option.some.inj h
    refine hclosed ?_
    rw [Node.safe, body_safe, Frame.Safe, hkind]
    simp
  · next ahead positive groups hkind =>
    obtain rfl := Option.some.inj h
    refine Iff.trans ?_ (@hclosed (.look ahead positive m.top.body) ?_)
    · rfl
    · rw [Node.safe, Frame.Safe, hkind]
      simp
  · next group hkind =>
    split at h
    · next hbranches =>
      obtain rfl := Option.some.inj h
      refine hclosed ?_
      rw [Node.safe, Bool.and_eq_true, sequence_safe, Frame.Safe, hkind, hbranches]
      simp [Node.safe]
    · next yes hbranches =>
      obtain rfl := Option.some.inj h
      refine hclosed ?_
      rw [Node.safe, Bool.and_eq_true, sequence_safe, Frame.Safe, hkind, hbranches]
      simp
    · cases h

theorem setFlags_safe {letters : List Char} (h : m.setFlags letters = some m') :
    m'.Safe ↔ m.Safe := by
  obtain ⟨-, rfl⟩ := guarded_eq_some.mp h
  rfl

/-- A step keeps what was safe, and makes the pattern unsafe exactly at an unsafe lexeme. -/
theorem step_safe {lexeme : Lexeme} (h : m.step unicode lexeme = some m') :
    m'.Safe ↔ m.Safe ∧ lexeme.Safe := by
  cases lexeme with
  | skip =>
    obtain rfl := Option.some.inj h
    simp [Lexeme.Safe]
  | item node =>
    obtain rfl := Option.some.inj h
    exact append_safe
  | reference group => simp [refer_safe h, Lexeme.Safe]
  | namedReference name =>
    obtain ⟨group, -, h⟩ := Option.bind_eq_some_iff.mp h
    simp [refer_safe h, Lexeme.Safe]
  | quantifier kind least most => simp [quantify_safe h, Lexeme.Safe]
  | opening opening => exact enter_safe h
  | flags letters => simp [setFlags_safe h, Lexeme.Safe]
  | bar => simp [bar_safe h, Lexeme.Safe]
  | close => simp [close_safe h, Lexeme.Safe]

theorem finish_safe {p : Pattern} (h : m.finish = some p) : p.tree.safe ↔ m.Safe := by
  obtain ⟨⟨hkind, henclosing, -⟩, rfl⟩ := guarded_eq_some.mp h
  rw [body_safe, Machine.Safe, henclosing, Frame.Safe, hkind]
  simp

end Safe

/-! ### Lexemes that are unsafe -/

/-- The lexeme is a named backreference. -/
def Lexeme.named : Lexeme → Bool
  | .namedReference _ => true
  | _ => false

/-- The tokens begin with a reference by number, or with lookaround. -/
def startsUnsafe : List Token → Bool
  | .esc c :: _ => isDigit c && c != '0'
  | .chr '(' :: .chr '?' :: .chr '=' :: _ => true
  | .chr '(' :: .chr '?' :: .chr '!' :: _ => true
  | .chr '(' :: .chr '?' :: .chr '<' :: .chr '=' :: _ => true
  | .chr '(' :: .chr '?' :: .chr '<' :: .chr '!' :: _ => true
  | _ => false

/-- Nowhere in the tokens does a reference by number begin, or lookaround. -/
def Clean (tokens : List Token) : Prop := ∀ rest, rest <:+ tokens → startsUnsafe rest = false

theorem Clean.suffix {tokens rest : List Token} (h : Clean tokens) (hrest : rest <:+ tokens) :
    Clean rest :=
  fun _ hsuffix => h _ (hsuffix.trans hrest)

/-- The lexeme makes a pattern unsafe only as a named backreference. -/
def Lexeme.Tame (lexeme : Lexeme) : Prop := lexeme.Safe ↔ lexeme.named = false

section Tame

variable {unicode : Unicode} {verbose : Bool} {c : Char} {t : Token} {tokens : List Token}
  {p : Lexeme × List Token}

theorem Lexeme.Safe.tame {lexeme : Lexeme} (h : lexeme.Safe) : lexeme.Tame := by
  cases lexeme <;> simp_all [Lexeme.Tame, Lexeme.named, Lexeme.Safe]

theorem readSet_tame (h : readSet unicode tokens = some p) : p.1.Tame := by
  unfold readSet at h
  split at h
  · obtain ⟨q, -, rfl⟩ := Option.map_eq_some_iff.mp h
    exact Lexeme.Safe.tame rfl
  · obtain ⟨q, -, rfl⟩ := Option.map_eq_some_iff.mp h
    exact Lexeme.Safe.tame rfl

theorem categories_safe {node : Node} (h : categories.lookup c = some node) : node.safe := by
  have hall : ∀ q ∈ categories, q.2.safe = true := by decide
  obtain ⟨before, after, heq, -⟩ := List.lookup_eq_some_iff.mp h
  exact hall (c, node) (heq ▸ List.mem_append_right before List.mem_cons_self)

theorem readEscape_tame (h : readEscape unicode c tokens = some p)
    (hstart : startsUnsafe (.esc c :: tokens) = false) :
    p.1.Tame := by
  unfold readEscape at h
  split at h
  · next hnode =>
    obtain rfl := Option.some.inj h
    exact Lexeme.Safe.tame (categories_safe hnode)
  · obtain rfl := Option.some.inj h
    exact Lexeme.Safe.tame rfl
  split at h
  · obtain rfl := Option.some.inj h
    exact Lexeme.Safe.tame rfl
  next hzero =>
  split at h
  · next hdigit =>
    simp [startsUnsafe, hdigit, hzero] at hstart
  · obtain ⟨q, -, h⟩ := Option.bind_eq_some_iff.mp h
    obtain rfl := Option.some.inj h
    exact Lexeme.Safe.tame rfl

theorem readBraces_tame (h : readBraces tokens = some p) : p.1.Tame := by
  unfold readBraces at h
  split at h
  · obtain rfl := Option.some.inj h
    exact Lexeme.Safe.tame rfl
  · obtain ⟨least, -, h⟩ := Option.bind_eq_some_iff.mp h
    obtain ⟨most, -, h⟩ := Option.bind_eq_some_iff.mp h
    obtain ⟨-, rfl⟩ := guarded_eq_some.mp h
    exact Lexeme.Safe.tame trivial

theorem readFlags_tame (h : readFlags tokens = some p) : p.1.Tame := by
  unfold readFlags at h
  obtain ⟨-, -, h⟩ := Option.bind_eq_some_iff.mp h
  split at h
  · obtain ⟨-, rfl⟩ := guarded_eq_some.mp h
    exact Lexeme.Safe.tame trivial
  · obtain ⟨-, rfl⟩ := guarded_eq_some.mp h
    exact Lexeme.Safe.tame trivial
  · obtain ⟨-, -, h⟩ := Option.bind_eq_some_iff.mp h
    split at h
    · obtain rfl := Option.some.inj h
      exact Lexeme.Safe.tame trivial
    · cases h
  · cases h

theorem readGroup_tame (h : readGroup unicode tokens = some p)
    (hstart : startsUnsafe (.chr '(' :: tokens) = false) :
    p.1.Tame := by
  unfold readGroup at h
  split at h
  · next tokens =>
    unfold readExtension at h
    split at h
    · obtain ⟨q, -, h⟩ := Option.bind_eq_some_iff.mp h
      obtain ⟨-, rfl⟩ := guarded_eq_some.mp h
      exact Lexeme.Safe.tame trivial
    · obtain ⟨q, -, h⟩ := Option.bind_eq_some_iff.mp h
      obtain ⟨-, rfl⟩ := guarded_eq_some.mp h
      simp [Lexeme.Tame, Lexeme.Safe, Lexeme.named]
    · obtain rfl := Option.some.inj h
      exact Lexeme.Safe.tame trivial
    · obtain ⟨q, -, rfl⟩ := Option.map_eq_some_iff.mp h
      exact Lexeme.Safe.tame trivial
    -- lookaround is what the tokens do not begin with
    · exact absurd hstart (by simp [startsUnsafe])
    · exact absurd hstart (by simp [startsUnsafe])
    · exact absurd hstart (by simp [startsUnsafe])
    · exact absurd hstart (by simp [startsUnsafe])
    · obtain ⟨q, -, h⟩ := Option.bind_eq_some_iff.mp h
      obtain rfl := Option.some.inj h
      exact Lexeme.Safe.tame trivial
    · obtain rfl := Option.some.inj h
      exact Lexeme.Safe.tame trivial
    · exact readFlags_tame h
  · obtain rfl := Option.some.inj h
    exact Lexeme.Safe.tame trivial

theorem readItem_tame (h : readItem unicode c tokens = some p)
    (hstart : startsUnsafe (.chr c :: tokens) = false) :
    p.1.Tame := by
  have hsafe : ∀ {lexeme : Lexeme} {rest : List Token}, some (lexeme, rest) = some p → lexeme.Safe →
      p.1.Tame := by
    rintro lexeme rest heq hlexeme
    obtain rfl := Option.some.inj heq
    exact hlexeme.tame
  unfold readItem at h
  split at h
  · exact hsafe h trivial
  · exact hsafe h trivial
  · exact readSet_tame h
  · exact hsafe h trivial
  · exact hsafe h trivial
  · exact hsafe h trivial
  · exact readBraces_tame h
  · exact hsafe h rfl
  · exact readGroup_tame h hstart
  · exact hsafe h rfl
  · exact hsafe h rfl
  · exact hsafe h rfl

/-- Where no reference by number begins and no lookaround, only a named backreference is unsafe. -/
theorem readLexeme_tame (h : readLexeme unicode verbose t tokens = some p)
    (hstart : startsUnsafe (t :: tokens) = false) : p.1.Tame := by
  cases t with
  | esc c => exact readEscape_tame h hstart
  | chr c =>
    change readChar unicode verbose c tokens = some p at h
    unfold readChar at h
    split at h
    · obtain rfl := Option.some.inj h
      exact Lexeme.Safe.tame trivial
    split at h
    · obtain rfl := Option.some.inj h
      exact Lexeme.Safe.tame trivial
    · exact readItem_tame h hstart

end Tame

/-! ### Group names -/

/-- A group that the lexeme opens has an identifier as its name, if it has one. -/
def Lexeme.Identified (unicode : Unicode) : Lexeme → Prop
  | .opening (.capture name) => ∀ n ∈ name, unicode.isIdentifier n = true
  | _ => True

/-- The names of the groups so far are identifiers. -/
def Machine.Identified (unicode : Unicode) (m : Machine) : Prop :=
  ∀ q ∈ m.names, unicode.isIdentifier q.1 = true

section Identified

variable {unicode : Unicode} {verbose : Bool} {c : Char} {t : Token} {tokens : List Token}
  {p : Lexeme × List Token}
  {m m' : Machine} {lexeme : Lexeme}

theorem readSet_identified (h : readSet unicode tokens = some p) : p.1.Identified unicode := by
  unfold readSet at h
  split at h
  · obtain ⟨q, -, rfl⟩ := Option.map_eq_some_iff.mp h
    trivial
  · obtain ⟨q, -, rfl⟩ := Option.map_eq_some_iff.mp h
    trivial

theorem readReference_identified (h : readReference c tokens = some p) :
    p.1.Identified unicode := by
  unfold readReference at h
  split at h
  · split at h
    · obtain rfl := Option.some.inj h
      trivial
    split at h
    · split at h
      · obtain ⟨-, rfl⟩ := guarded_eq_some.mp h
        trivial
      · obtain rfl := Option.some.inj h
        trivial
    · obtain rfl := Option.some.inj h
      trivial
  · obtain rfl := Option.some.inj h
    trivial

theorem readEscape_identified (h : readEscape unicode c tokens = some p) :
    p.1.Identified unicode := by
  unfold readEscape at h
  split at h
  · obtain rfl := Option.some.inj h
    trivial
  · obtain rfl := Option.some.inj h
    trivial
  split at h
  · obtain rfl := Option.some.inj h
    trivial
  split at h
  · exact readReference_identified h
  · obtain ⟨q, -, h⟩ := Option.bind_eq_some_iff.mp h
    obtain rfl := Option.some.inj h
    trivial

theorem readBraces_identified (h : readBraces tokens = some p) : p.1.Identified unicode := by
  unfold readBraces at h
  split at h
  · obtain rfl := Option.some.inj h
    trivial
  · obtain ⟨least, -, h⟩ := Option.bind_eq_some_iff.mp h
    obtain ⟨most, -, h⟩ := Option.bind_eq_some_iff.mp h
    obtain ⟨-, rfl⟩ := guarded_eq_some.mp h
    trivial

theorem readFlags_identified (h : readFlags tokens = some p) : p.1.Identified unicode := by
  unfold readFlags at h
  obtain ⟨-, -, h⟩ := Option.bind_eq_some_iff.mp h
  split at h
  · obtain ⟨-, rfl⟩ := guarded_eq_some.mp h
    trivial
  · obtain ⟨-, rfl⟩ := guarded_eq_some.mp h
    trivial
  · obtain ⟨-, -, h⟩ := Option.bind_eq_some_iff.mp h
    split at h
    · obtain rfl := Option.some.inj h
      trivial
    · cases h
  · cases h

/-- The name of a group is checked where it is read. -/
theorem readExtension_identified (h : readExtension unicode tokens = some p) :
    p.1.Identified unicode := by
  unfold readExtension at h
  split at h
  · obtain ⟨q, -, h⟩ := Option.bind_eq_some_iff.mp h
    obtain ⟨hname, rfl⟩ := guarded_eq_some.mp h
    rintro n ⟨⟩
    exact hname
  · obtain ⟨q, -, h⟩ := Option.bind_eq_some_iff.mp h
    obtain ⟨-, rfl⟩ := guarded_eq_some.mp h
    trivial
  · obtain rfl := Option.some.inj h
    trivial
  · obtain ⟨q, -, rfl⟩ := Option.map_eq_some_iff.mp h
    trivial
  · obtain rfl := Option.some.inj h
    trivial
  · obtain rfl := Option.some.inj h
    trivial
  · obtain rfl := Option.some.inj h
    trivial
  · obtain rfl := Option.some.inj h
    trivial
  · obtain ⟨q, -, h⟩ := Option.bind_eq_some_iff.mp h
    obtain rfl := Option.some.inj h
    trivial
  · obtain rfl := Option.some.inj h
    trivial
  · exact readFlags_identified h

theorem readItem_identified (h : readItem unicode c tokens = some p) : p.1.Identified unicode := by
  have hother : ∀ {lexeme : Lexeme} {rest : List Token}, some (lexeme, rest) = some p →
      lexeme.Identified unicode →
      p.1.Identified unicode := by
    intro lexeme rest heq hlexeme
    obtain rfl := Option.some.inj heq
    exact hlexeme
  unfold readItem at h
  split at h
  · exact hother h trivial
  · exact hother h trivial
  · exact readSet_identified h
  · exact hother h trivial
  · exact hother h trivial
  · exact hother h trivial
  · exact readBraces_identified h
  · exact hother h trivial
  · unfold readGroup at h
    split at h
    · exact readExtension_identified h
    · exact hother h (by simp [Lexeme.Identified])
  · exact hother h trivial
  · exact hother h trivial
  · exact hother h trivial

theorem readLexeme_identified (h : readLexeme unicode verbose t tokens = some p) :
    p.1.Identified unicode := by
  cases t with
  | esc c => exact readEscape_identified h
  | chr c =>
    change readChar unicode verbose c tokens = some p at h
    unfold readChar at h
    split at h
    · obtain rfl := Option.some.inj h
      trivial
    split at h
    · obtain rfl := Option.some.inj h
      trivial
    · exact readItem_identified h

/-- A step adds no name but that of a group it opens. -/
theorem step_names (h : m.step unicode lexeme = some m') :
    m'.names = m.names ∨ ∃ n, lexeme = .opening (.capture (some n)) ∧
      m'.names = (n, m.groups) :: m.names := by
  cases lexeme with
  | skip =>
    obtain rfl := Option.some.inj h
    exact .inl rfl
  | item node =>
    obtain rfl := Option.some.inj h
    exact .inl rfl
  | reference group =>
    obtain ⟨-, rfl⟩ := guarded_eq_some.mp h
    exact .inl rfl
  | namedReference name =>
    obtain ⟨group, -, h⟩ := Option.bind_eq_some_iff.mp h
    obtain ⟨-, rfl⟩ := guarded_eq_some.mp h
    exact .inl rfl
  | quantifier kind least most =>
    change m.quantify kind least most = some m' at h
    unfold Machine.quantify at h
    split at h
    · cases h
    · cases h
    · cases h
    · obtain rfl := Option.some.inj h
      exact .inl rfl
  | opening opening =>
    cases opening with
    | capture name =>
      obtain ⟨-, rfl⟩ := guarded_eq_some.mp h
      cases name with
      | none => exact .inl rfl
      | some n => exact .inr ⟨n, rfl, rfl⟩
    | scope on off =>
      obtain rfl := Option.some.inj h
      exact .inl rfl
    | atomic =>
      obtain rfl := Option.some.inj h
      exact .inl rfl
    | look ahead positive =>
      obtain rfl := Option.some.inj h
      cases ahead <;> exact .inl rfl
    | condition group =>
      obtain ⟨number, -, h⟩ := Option.bind_eq_some_iff.mp h
      obtain ⟨-, rfl⟩ := guarded_eq_some.mp h
      refine .inl ?_
      dsimp only [Machine.push]
      split <;> rfl
  | flags letters =>
    obtain ⟨-, rfl⟩ := guarded_eq_some.mp h
    exact .inl rfl
  | bar =>
    change m.bar = some m' at h
    unfold Machine.bar at h
    split at h
    · cases h
    · obtain rfl := Option.some.inj h
      exact .inl rfl
  | close =>
    refine .inl ?_
    change m.close = some m' at h
    unfold Machine.close at h
    split at h
    · cases h
    split at h
    · cases h
    · obtain rfl := Option.some.inj h
      rfl
    · obtain rfl := Option.some.inj h
      rfl
    · obtain rfl := Option.some.inj h
      rfl
    · obtain rfl := Option.some.inj h
      rfl
    · split at h
      · obtain rfl := Option.some.inj h
        rfl
      · obtain rfl := Option.some.inj h
        rfl
      · cases h

theorem step_identified (h : m.step unicode lexeme = some m') (hm : m.Identified unicode)
    (hlexeme : lexeme.Identified unicode) : m'.Identified unicode := by
  intro q hq
  rcases step_names h with hnames | ⟨n, rfl, hnames⟩
  · exact hm q (hnames ▸ hq)
  · rw [hnames, List.mem_cons] at hq
    rcases hq with rfl | hq
    · exact hlexeme n rfl
    · exact hm q hq

/-- The group names of a pattern that was read are identifiers. -/
theorem parse_identified {pattern : List Char} {p : Pattern} (h : parse unicode pattern = some p) :
    ∀ q ∈ p.groupindex, unicode.isIdentifier q.1 = true := by
  obtain ⟨tokens, -, hrun⟩ := Option.bind_eq_some_iff.mp h
  have hstart : Machine.start.Identified unicode := by
    intro q hq
    cases hq
  revert hstart
  refine Machine.run_induction (motive := fun m _ p =>
    m.Identified unicode → ∀ q ∈ p.groupindex, unicode.isIdentifier q.1 = true) ?_ ?_ hrun
  · intro m p hfinish hm
    obtain ⟨-, rfl⟩ := guarded_eq_some.mp hfinish
    exact hm
  · intro m t rest lexeme rest' m' p hlexeme hstep ih hm
    exact ih (step_identified hstep hm (readLexeme_identified hlexeme))

end Identified

end AssetStore.Lib.Regex
