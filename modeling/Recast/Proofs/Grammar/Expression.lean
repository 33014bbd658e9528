import Mathlib
import Recast.Proofs.Grammar.Token
import Recast.Tree

/-!
The grammar of TypeScript expressions, as far as operators, accesses and calls go.

`Derives n tokens t` says that the tokens are an expression of level `n` or tighter, and `t` its
tree. The levels are those of the language: assignments are loosest and group to the right, binary
operators group to the left, and what is in parentheses stands wherever an expression may.

The grammar is unambiguous (`Derives.unique`). `readExpr` reads an expression by looking at one
token at a time, and every derivation is what it reads.
-/

namespace Recast.Grammar

open Filter

/-! ### Operators -/

/-- The binary operators: the sign, the operator in a tree, and its level. -/
def binaryOperators : List (String × String × Nat) :=
  [("||", "||", 3), ("&&", "&&", 4), ("|", "|", 5), ("^", "^", 6), ("&", "&", 7),
   ("===", "==", 8), ("!==", "!=", 8), ("<", "<", 9), (">", ">", 9), ("<=", "<=", 9),
   (">=", ">=", 9), ("<<", "<<", 10), (">>", ">>", 10), (">>>", ">>>", 10), ("+", "+", 11),
   ("-", "-", 11), ("*", "*", 12), ("/", "/", 12), ("%", "%", 12)]

def prefixOperators : List String := ["+", "-", "!", "~", "++", "--"]

def updateOperators : List String := ["++", "--"]

def assignmentOperators : List String :=
  ["=", "+=", "-=", "*=", "/=", "%=", "&=", "|=", "^=", "<<=", ">>=", ">>>="]

/-! ### Trees -/

/-- An expression with nothing beside its structure. -/
def expression (form : ExprForm Tree) : Tree := .node {} (.expr form)

/-- The call of what an expression names: a function, or the method of a target. -/
def callOf? (callee : Tree) (arguments : List Tree) : Option Tree :=
  match callee.form with
  | .expr (.ident name) => some (expression (.call name arguments none []))
  | .expr (.field target name) => some (expression (.call name arguments target []))
  | _ => none

/-- The class that an expression names. -/
def classOf? : Tree → Option Tree :=
  Tree.fold fun _ layer =>
    match layer with
    | .expr (.ident name) => some (.node {} (.type (.named name none none false)))
    | .expr (.field (some (some scope)) name) =>
      some (.node {} (.type (.named name none (some scope) false)))
    | _ => none

/-! ### The grammar -/

/-- The tokens of an expression of a level, and its tree. -/
inductive Derives : Nat → List Token → Tree → Prop where
  | name {text : String} : Derives 16 [.name text] (expression (.ident (.text text)))
  | literal {text : String} : Derives 16 [.literal text] (expression (.literal (.text text)))
  | this : Derives 16 [.this] (expression (.this .null))
  | parens {tokens : List Token} {t : Tree} : Derives 1 tokens t →
    Derives 16 (.sign "(" :: tokens ++ [.sign ")"]) t
  | field {tokens : List Token} {target : Tree} {name : String} : Derives 16 tokens target →
    Derives 16 (tokens ++ [.sign ".", .name name]) (expression (.field (some target) (.text name)))
  | call {tokens : List Token} {callee t : Tree} {arguments : List (List Token × Tree)} :
    Derives 16 tokens callee → (∀ a ∈ arguments, Derives 1 a.1 a.2) →
    callOf? callee (arguments.map (·.2)) = some t →
    Derives 16 (tokens ++ .sign "(" :: [.sign ","].intercalate (arguments.map (·.1)) ++ [.sign ")"]) t
  | index {tokens inner : List Token} {target index : Tree} : Derives 16 tokens target →
    Derives 1 inner index →
    Derives 16 (tokens ++ .sign "[" :: inner ++ [.sign "]"])
      (expression (.subscript (some target) (some index)))
  | update {operator : String} {tokens : List Token} {operand : Tree} :
    operator ∈ updateOperators → Derives 16 tokens operand →
    Derives 15 (tokens ++ [.sign operator])
      (expression (.unary (.text operator) (some operand) false))
  | before {operator : String} {tokens : List Token} {operand : Tree} :
    operator ∈ prefixOperators → Derives 14 tokens operand →
    Derives 14 (.sign operator :: tokens)
      (expression (.unary (.text operator) (some operand) true))
  | binary {sign operator : String} {n : Nat} {left right : List Token} {a b : Tree} :
    (sign, operator, n) ∈ binaryOperators → Derives n left a → Derives (n + 1) right b →
    Derives n (left ++ .sign sign :: right)
      (expression (.binary (.text operator) (some a) (some b)))
  | test {left right : List Token} {a b type : Tree} : Derives 9 left a → Derives 10 right b →
    classOf? b = some type →
    Derives 9 (left ++ .sign "instanceof" :: right) (expression (.instanceOf (some a) (some type)))
  | choice {condition yes no : List Token} {a b c : Tree} : Derives 3 condition a →
    Derives 1 yes b → Derives 1 no c →
    Derives 2 (condition ++ .sign "?" :: yes ++ .sign ":" :: no)
      (expression (.conditional (some a) (some b) (some c)))
  | assign {operator : String} {left right : List Token} {a b : Tree} :
    operator ∈ assignmentOperators → Derives 16 left a → Derives 1 right b →
    Derives 1 (left ++ .sign operator :: right)
      (expression (.assign (.text operator) (some a) (some b)))
  | lift {n : Nat} {tokens : List Token} {t : Tree} : Derives (n + 1) tokens t →
    Derives n tokens t

theorem Derives.mono {m n : Nat} {tokens : List Token} {t : Tree} (h : Derives n tokens t)
    (hle : m ≤ n) : Derives m tokens t := by
  induction hle using Nat.decreasingInduction with
  | of_succ k _ ih => exact ih.lift
  | self => exact h

/-! ### Reading an expression -/

/-- What goes on an expression, by the token it starts with. -/
inductive Joint where
  | field
  | call
  | index
  | update (operator : String)
  | binary (operator : String) (level : Nat)
  | test
  | choice
  | assign (operator : String)
deriving DecidableEq

/-- The level of the expression that a joint makes. -/
def Joint.level : Joint → Nat
  | .field | .call | .index => 16
  | .update _ => 15
  | .binary _ level => level
  | .test => 9
  | .choice => 2
  | .assign _ => 1

/-- The joint that a token starts. -/
def Token.joint? : Token → Option Joint
  | .sign "." => some .field
  | .sign "(" => some .call
  | .sign "[" => some .index
  | .sign "instanceof" => some .test
  | .sign "?" => some .choice
  | .sign text =>
    if text ∈ updateOperators then some (.update text)
    else if text ∈ assignmentOperators then some (.assign text)
    else (binaryOperators.find? (·.1 = text)).map fun entry => .binary entry.2.1 entry.2.2
  | _ => none

mutual

/-- Reads an expression of a level or tighter; gives it and the tokens after it. -/
def readExpr : Nat → Nat → List Token → Option (Tree × List Token)
  | 0, _, _ => none
  | fuel + 1, level, tokens => do
    let (t, rest) ← readStart fuel tokens
    readTail fuel level t rest

/-- Reads what an expression starts with, up to its first joint. -/
def readStart : Nat → List Token → Option (Tree × List Token)
  | _ + 1, .name text :: rest => some (expression (.ident (.text text)), rest)
  | _ + 1, .literal text :: rest => some (expression (.literal (.text text)), rest)
  | _ + 1, .this :: rest => some (expression (.this .null), rest)
  | fuel + 1, .sign sign :: rest =>
    if sign = "(" then do
      let (t, rest) ← readExpr fuel 1 rest
      if rest.head? = some (.sign ")") then some (t, rest.tail) else none
    else if sign ∈ prefixOperators then do
      let (t, rest) ← readExpr fuel 14 rest
      some (expression (.unary (.text sign) (some t) true), rest)
    else none
  | _, _ => none

/-- Goes on reading an expression, as long as the joints are of a level or tighter. -/
def readTail : Nat → Nat → Tree → List Token → Option (Tree × List Token)
  | 0, _, _, _ => none
  | fuel + 1, level, t, tokens =>
    match tokens.head?.bind Token.joint? with
    | none => some (t, tokens)
    | some joint =>
      if joint.level < level then some (t, tokens)
      else do
        let (u, rest) ← readJoint fuel joint t tokens.tail
        readTail fuel level u rest

/-- Reads what stands after the first token of a joint. -/
def readJoint : Nat → Joint → Tree → List Token → Option (Tree × List Token)
  | 0, _, _, _ => none
  | fuel + 1, joint, t, tokens =>
    match joint with
    | .field =>
      match tokens with
      | .name name :: rest => some (expression (.field (some t) (.text name)), rest)
      | _ => none
    | .call => do
      let (arguments, rest) ← readArguments fuel tokens
      let u ← callOf? t arguments
      some (u, rest)
    | .index => do
      let (index, rest) ← readExpr fuel 1 tokens
      if rest.head? = some (.sign "]") then
        some (expression (.subscript (some t) (some index)), rest.tail)
      else none
    | .update operator => some (expression (.unary (.text operator) (some t) false), tokens)
    | .binary operator level => do
      let (right, rest) ← readExpr fuel (level + 1) tokens
      some (expression (.binary (.text operator) (some t) (some right)), rest)
    | .test => do
      let (right, rest) ← readExpr fuel 10 tokens
      let type ← classOf? right
      some (expression (.instanceOf (some t) (some type)), rest)
    | .choice => do
      let (yes, rest) ← readExpr fuel 1 tokens
      if rest.head? = some (.sign ":") then
        let (no, rest) ← readExpr fuel 1 rest.tail
        some (expression (.conditional (some t) (some yes) (some no)), rest)
      else none
    | .assign operator => do
      let (right, rest) ← readExpr fuel 1 tokens
      some (expression (.assign (.text operator) (some t) (some right)), rest)

/-- Reads the arguments of a call, up to the parenthesis that closes them. -/
def readArguments : Nat → List Token → Option (List Tree × List Token)
  | 0, _ => none
  | fuel + 1, tokens =>
    match readExpr fuel 1 tokens with
    | some (first, rest) => do
      let (others, rest) ← readMore fuel rest
      some (first :: others, rest)
    | none => if tokens.head? = some (.sign ")") then some ([], tokens.tail) else none

/-- Reads the arguments after the first. -/
def readMore : Nat → List Token → Option (List Tree × List Token)
  | fuel + 1, .sign sign :: rest =>
    if sign = ")" then some ([], rest)
    else if sign = "," then do
      let (first, rest) ← readExpr fuel 1 rest
      let (others, rest) ← readMore fuel rest
      some (first :: others, rest)
    else none
  | _, _ => none

end

/-! ### Every derivation is read -/

/-- With enough fuel, reading gives a result. -/
def Settles {α : Type} (read : Nat → Option α) (a : α) : Prop := ∀ᶠ fuel in atTop, read fuel = some a

section Settles

variable {level : Nat} {t u : Tree} {token : Token} {joint : Joint} {tokens rest rest' : List Token}
  {result : Tree × List Token}

/-- Reading gives one result only. -/
theorem Settles.unique {α : Type} {read : Nat → Option α} {a b : α} (ha : Settles read a)
    (hb : Settles read b) : a = b := by
  obtain ⟨fuel, hfa, hfb⟩ := (ha.and hb).exists
  exact Option.some.inj (hfa.symm.trans hfb)

/-- One unit of fuel more or less makes no difference. -/
theorem Settles.succ {α : Type} {read : Nat → Option α} {a : α}
    (h : ∀ᶠ fuel in atTop, read (fuel + 1) = some a) : Settles read a := by
  obtain ⟨bound, hbound⟩ := eventually_atTop.1 h
  refine eventually_atTop.2 ⟨bound + 1, fun fuel hfuel => ?_⟩
  obtain ⟨less, rfl⟩ := Nat.exists_eq_add_of_le' (Nat.one_le_of_lt hfuel)
  exact hbound less (by omega)

theorem readExpr_settles (hstart : Settles (readStart · tokens) (t, rest))
    (htail : Settles (readTail · level t rest) result) :
    Settles (readExpr · level tokens) result := by
  refine Settles.succ ?_
  filter_upwards [hstart, htail] with fuel hs ht
  simp [readExpr, hs, ht]

/-- Reading stops at a token that starts no joint, or one of a looser level. -/
theorem readTail_stops (h : ∀ joint ∈ rest.head?.bind Token.joint?, joint.level < level) :
    Settles (readTail · level t rest) (t, rest) := by
  refine Settles.succ (Eventually.of_forall fun fuel => ?_)
  cases hjoint : rest.head?.bind Token.joint? with
  | none => simp [readTail, hjoint]
  | some joint =>
    have hlevel := h joint hjoint
    simp [readTail, hjoint, hlevel]

theorem readTail_goes_on (hjoint : token.joint? = some joint) (hlevel : level ≤ joint.level)
    (hread : Settles (readJoint · joint t rest) (u, rest'))
    (htail : Settles (readTail · level u rest') result) :
    Settles (readTail · level t (token :: rest)) result := by
  refine Settles.succ ?_
  filter_upwards [hread, htail] with fuel hr ht
  simp [readTail, hjoint, Nat.not_lt.2 hlevel, hr, ht]

theorem joint?_binary : ∀ entry ∈ binaryOperators,
    (Token.sign entry.1).joint? = some (.binary entry.2.1 entry.2.2) ∧ 3 ≤ entry.2.2 := by
  decide

theorem joint?_update : ∀ operator ∈ updateOperators,
    (Token.sign operator).joint? = some (.update operator) := by
  decide

theorem joint?_assign : ∀ operator ∈ assignmentOperators,
    (Token.sign operator).joint? = some (.assign operator) := by
  decide

/-- No joint is of the level of prefix operators. -/
theorem level_ne_of_joint? (h : token.joint? = some joint) : joint.level ≠ 14 := by
  have htable : ∀ entry ∈ binaryOperators, entry.2.2 ≠ 14 := by decide
  unfold Token.joint? at h
  split at h
  case h_6 text _ _ _ _ _ =>
    split at h
    · cases h
      simp [Joint.level]
    split at h
    · cases h
      simp [Joint.level]
    obtain ⟨entry, hentry, rfl⟩ := Option.map_eq_some_iff.1 h
    exact htable entry (List.mem_of_find?_eq_some hentry)
  all_goals
    cases h
    try decide

/-- Whether the tokens after an expression of a level leave it as it is. What ends a conditional or
an assignment would take a joint of any level to itself. -/
def Follows (n : Nat) (rest : List Token) : Prop :=
  ∀ joint ∈ rest.head?.bind Token.joint?, 3 ≤ n ∧ joint.level ≤ n

namespace Follows

variable {n : Nat}

theorem lift (h : Follows n rest) : Follows (n + 1) rest := fun joint hjoint =>
  ⟨Nat.le_succ_of_le (h joint hjoint).1, Nat.le_succ_of_le (h joint hjoint).2⟩

theorem of_joint (hjoint : token.joint? = some joint) (hn : 3 ≤ n) (hlevel : joint.level ≤ n) :
    Follows n (token :: rest) := by
  intro other hother
  obtain rfl : joint = other := by simpa [hjoint] using hother
  exact ⟨hn, hlevel⟩

theorem of_none (h : rest.head?.bind Token.joint? = none) : Follows n rest := by
  intro joint hjoint
  rw [h] at hjoint
  cases hjoint

/-- An expression of a tighter level ends where a looser one does. -/
theorem stops (h : Follows n rest) (hlevel : n < level) :
    Settles (readTail · level t rest) (t, rest) :=
  readTail_stops fun joint hjoint => lt_of_le_of_lt (h joint hjoint).2 hlevel

/-- Nothing goes on the operand of a prefix operator, after which its expression ends. -/
theorem stops_before (h : Follows 14 rest) : Settles (readTail · 14 t rest) (t, rest) := by
  refine readTail_stops fun joint hjoint => lt_of_le_of_ne (h joint hjoint).2 ?_
  obtain ⟨token, -, htoken⟩ := Option.bind_eq_some_iff.1 hjoint
  exact level_ne_of_joint? htoken

/-- Nothing goes on a conditional or an assignment. -/
theorem stops_loose (h : Follows n rest) (hn : n < 3) :
    Settles (readTail · level t rest) (t, rest) :=
  readTail_stops fun joint hjoint => absurd (h joint hjoint).1 (by omega)

end Follows

end Settles

/-- Reading arguments after the first reads each of them. -/
theorem readMore_settles {arguments : List (List Token × Tree)} (rest : List Token)
    (h : ∀ a ∈ arguments, ∀ rest, Follows 1 rest →
      Settles (readExpr · 1 (a.1 ++ rest)) (a.2, rest)) :
    Settles (readMore · (arguments.flatMap (.sign "," :: ·.1) ++ .sign ")" :: rest))
      (arguments.map (·.2), rest) := by
  induction arguments with
  | nil => exact Settles.succ (Eventually.of_forall fun fuel => by simp [readMore])
  | cons first others ih =>
    have hfirst := h first List.mem_cons_self
      (others.flatMap (.sign "," :: ·.1) ++ .sign ")" :: rest)
      (Follows.of_none (by cases others <;> rfl))
    refine Settles.succ ?_
    filter_upwards [hfirst, ih fun a ha => h a (List.mem_cons_of_mem _ ha)] with fuel hf ho
    simp [readMore, hf, ho]

theorem intercalate_comma (first : List Token × Tree) (others : List (List Token × Tree)) :
    [.sign ","].intercalate ((first :: others).map (·.1)) =
      first.1 ++ others.flatMap (.sign "," :: ·.1) := by
  induction others generalizing first with
  | nil => simp
  | cons second others ih =>
    have hrest := ih second
    simp only [List.map_cons] at hrest ⊢
    rw [List.intercalate_cons_cons, hrest]
    simp

/-- Reading arguments reads each of them. -/
theorem readArguments_settles {arguments : List (List Token × Tree)} (rest : List Token)
    (h : ∀ a ∈ arguments, ∀ rest, Follows 1 rest →
      Settles (readExpr · 1 (a.1 ++ rest)) (a.2, rest)) :
    Settles (readArguments · ([.sign ","].intercalate (arguments.map (·.1)) ++ .sign ")" :: rest))
      (arguments.map (·.2), rest) := by
  refine Settles.succ ?_
  cases arguments with
  | nil =>
    refine Eventually.of_forall fun fuel => ?_
    -- no expression starts with a parenthesis that closes
    have hnone : readExpr fuel 1 (.sign ")" :: rest) = none := by
      rcases fuel with _ | _ | fuel <;> simp [readExpr, readStart, prefixOperators]
    simp [readArguments, hnone]
  | cons first others =>
    rw [intercalate_comma, List.append_assoc]
    have hfirst := h first List.mem_cons_self
      (others.flatMap (.sign "," :: ·.1) ++ .sign ")" :: rest)
      (Follows.of_none (by cases others <;> rfl))
    have hothers := readMore_settles rest fun a ha => h a (List.mem_cons_of_mem first ha)
    filter_upwards [hfirst, hothers] with fuel hf ho
    simp [readArguments, hf, ho]

/-- Reading the tokens of an expression comes down to reading what follows them. -/
theorem Derives.read {n level : Nat} {tokens rest : List Token} {t : Tree}
    {result : Tree × List Token} (h : Derives n tokens t) (hlevel : level ≤ n)
    (hrest : Follows n rest) (htail : Settles (readTail · level t rest) result) :
    Settles (readExpr · level (tokens ++ rest)) result := by
  induction h generalizing level rest result with
  | name | literal | this =>
    exact readExpr_settles (Settles.succ (Eventually.of_forall fun fuel => by simp [readStart]))
      htail
  | @parens tokens t _ ih =>
    have hclose : Follows 1 (.sign ")" :: rest) := Follows.of_none rfl
    refine readExpr_settles (Settles.succ ?_) htail
    filter_upwards [ih le_rfl hclose (hclose.stops_loose (by decide))] with fuel hfuel
    simp [readStart, hfuel]
  | @field tokens target name _ ih =>
    have hjoint : (Token.sign ".").joint? = some .field := rfl
    rw [List.append_assoc]
    refine ih hlevel (Follows.of_joint hjoint (by decide) le_rfl) ?_
    refine readTail_goes_on hjoint hlevel (Settles.succ ?_) htail
    exact Eventually.of_forall fun fuel => by simp [readJoint]
  | @call tokens callee t arguments _ _ hcall ih iha =>
    have hjoint : (Token.sign "(").joint? = some .call := rfl
    have harguments := readArguments_settles rest fun a ha rest hrest =>
      iha a ha le_rfl hrest (hrest.stops_loose (by decide))
    rw [List.append_assoc, List.append_assoc]
    refine ih hlevel (Follows.of_joint hjoint (by decide) le_rfl) ?_
    refine readTail_goes_on hjoint hlevel (Settles.succ ?_) htail
    filter_upwards [harguments] with fuel hfuel
    simp [readJoint, hfuel, hcall]
  | @index tokens inner target index _ _ ih ihi =>
    have hjoint : (Token.sign "[").joint? = some .index := rfl
    have hclose : Follows 1 (.sign "]" :: rest) := Follows.of_none rfl
    rw [List.append_assoc, List.append_assoc]
    refine ih hlevel (Follows.of_joint hjoint (by decide) le_rfl) ?_
    refine readTail_goes_on hjoint hlevel (Settles.succ ?_) htail
    filter_upwards [ihi le_rfl hclose (hclose.stops_loose (by decide))] with fuel hfuel
    simp [readJoint, hfuel]
  | @update operator tokens operand hoperator _ ih =>
    have hjoint := joint?_update operator hoperator
    rw [List.append_assoc]
    refine ih (Nat.le_succ_of_le hlevel) (Follows.of_joint hjoint (by decide) (Nat.le_succ 15)) ?_
    refine readTail_goes_on hjoint hlevel (Settles.succ ?_) htail
    exact Eventually.of_forall fun fuel => by simp [readJoint]
  | @before operator tokens operand hoperator _ ih =>
    have hne : operator ≠ "(" := by
      rintro rfl
      exact absurd hoperator (by decide)
    refine readExpr_settles (Settles.succ ?_) htail
    filter_upwards [ih le_rfl hrest hrest.stops_before] with fuel hfuel
    simp [readStart, hne, hoperator, hfuel]
  | @binary sign operator n left right a b hentry _ _ ihl ihr =>
    obtain ⟨hjoint, hn⟩ := joint?_binary _ hentry
    rw [List.append_assoc]
    refine ihl hlevel (Follows.of_joint hjoint hn le_rfl) ?_
    refine readTail_goes_on hjoint hlevel (Settles.succ ?_) htail
    filter_upwards [ihr le_rfl hrest.lift (hrest.stops (Nat.lt_succ_self n))] with fuel hfuel
    simp [readJoint, hfuel]
  | @test left right a b type _ _ hclass ihl ihr =>
    have hjoint : (Token.sign "instanceof").joint? = some .test := rfl
    rw [List.append_assoc]
    refine ihl hlevel (Follows.of_joint hjoint (by decide) le_rfl) ?_
    refine readTail_goes_on hjoint hlevel (Settles.succ ?_) htail
    filter_upwards [ihr le_rfl hrest.lift (hrest.stops (by decide))] with fuel hfuel
    simp [readJoint, hfuel, hclass]
  | @choice condition yes no a b c _ _ _ ihc ihy ihn =>
    have hjoint : (Token.sign "?").joint? = some .choice := rfl
    have hcolon : Follows 1 (.sign ":" :: (no ++ rest)) := Follows.of_none rfl
    have hend : Follows 1 rest := fun joint hmem => absurd (hrest joint hmem).1 (by decide)
    rw [List.append_assoc, List.append_assoc]
    refine ihc (Nat.le_succ_of_le hlevel) (Follows.of_joint hjoint le_rfl (by decide)) ?_
    refine readTail_goes_on hjoint hlevel (Settles.succ ?_) htail
    filter_upwards [ihy le_rfl hcolon (hcolon.stops_loose (by decide)),
      ihn le_rfl hend (hend.stops_loose (by decide))] with fuel hyes hno
    simp [readJoint, hyes, hno]
  | @assign operator left right a b hoperator _ _ ihl ihr =>
    have hjoint := joint?_assign operator hoperator
    have hsixteen : (Joint.assign operator).level ≤ 16 := by simp [Joint.level]
    rw [List.append_assoc]
    refine ihl (le_trans hlevel (by decide)) (Follows.of_joint hjoint (by decide) hsixteen) ?_
    refine readTail_goes_on hjoint hlevel (Settles.succ ?_) htail
    filter_upwards [ihr le_rfl hrest (hrest.stops_loose (by decide))] with fuel hfuel
    simp [readJoint, hfuel]
  | lift _ ih => exact ih (Nat.le_succ_of_le hlevel) hrest.lift htail

/-- The grammar is unambiguous. -/
theorem Derives.unique {tokens : List Token} {t u : Tree} (ht : Derives 1 tokens t)
    (hu : Derives 1 tokens u) : t = u := by
  have hend : Follows 1 [] := Follows.of_none rfl
  have htread := ht.read le_rfl hend (hend.stops_loose (by decide))
  have huread := hu.read le_rfl hend (hend.stops_loose (by decide))
  exact (Prod.ext_iff.1 (htread.unique huread)).1

/-- Whether a text is an expression, and a tree the one it stands for. -/
def Parses (text : String) (t : Tree) : Prop :=
  ∃ tokens, Lexes text.toList tokens ∧ Derives 1 tokens t

theorem Parses.unique {text : String} {t u : Tree} (ht : Parses text t) (hu : Parses text u) :
    t = u := by
  obtain ⟨tokens, htokens, ht⟩ := ht
  obtain ⟨others, hothers, hu⟩ := hu
  obtain rfl := htokens.unique hothers
  exact ht.unique hu

end Recast.Grammar
