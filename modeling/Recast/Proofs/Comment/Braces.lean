import Mathlib
import Recast.Proofs.Comment.Attach
import Recast.Proofs.Position

/-!
Braces, and the containers that comments go to.

The brace pairs of a text are nested: a pair that closes later than another opens behind it or
around it, because a closing brace always takes the last brace that is still open
(`pairwise_bracesFrom`). Of the pairs around a position one is therefore inside all the others, and
that is the one that opens last. So looking for the last pair that opens before a position, by
halving and then backwards, finds the innermost pair around it (`searchBack_eq`), and a comment goes
to the container whose span lies inside the spans of all other containers around the comment
(`comment_to_innermost`).
-/

namespace Recast

/-! ### Pairs -/

namespace BracePair

/-- Whether a pair lies strictly inside another. -/
def Inside (inner outer : BracePair) : Prop :=
  outer.opened < inner.opened ∧ inner.closed < outer.closed

/-- Whether one of two pairs closes before the other opens. -/
def Apart (a b : BracePair) : Prop := a.closed < b.opened ∨ b.closed < a.opened

/-- Whether two pairs are apart or one of them is inside the other. -/
def Laminar (a b : BracePair) : Prop := a.Apart b ∨ a.Inside b ∨ b.Inside a

variable {a b pair : BracePair} {p : Position}

theorem Laminar.symm (h : a.Laminar b) : b.Laminar a := by
  rcases h with (hapart | hapart) | hinside | hinside
  · exact .inl (.inr hapart)
  · exact .inl (.inl hapart)
  · exact .inr (.inr hinside)
  · exact .inr (.inl hinside)

instance : Std.Symm Laminar := ⟨fun _ _ => Laminar.symm⟩

theorem encloses_iff : pair.encloses p = true ↔ pair.opened < p ∧ p < pair.closed := by
  simp [encloses]

theorem not_apart_of_encloses (ha : a.encloses p) (hb : b.encloses p) : ¬ a.Apart b := by
  rw [encloses_iff] at ha hb
  rintro (h | h)
  · exact lt_asymm (ha.2.trans h) hb.1
  · exact lt_asymm (hb.2.trans h) ha.1

end BracePair

namespace Scan

/-- Whether pairs are sorted by where they open, each opens before it closes, and any two are apart
or one is inside the other. -/
structure Nested (pairs : List BracePair) : Prop where
  sorted : pairs.Pairwise fun a b => a.opened < b.opened
  ordered : ∀ pair ∈ pairs, pair.opened < pair.closed
  laminar : pairs.Pairwise BracePair.Laminar

/-! ### Closing the last open brace -/

variable {p : Position} {opened : List Position} {pieces : List Lexeme} {pair : BracePair}
  {pairs : List BracePair}

/-- A pair closes where it is found or later, and opens before that, either at a brace that was
open already or where it is found or later. -/
theorem of_mem_bracesFrom (hopened : ∀ q ∈ opened, q < p)
    (h : pair ∈ bracesFrom p opened pieces) :
    (pair.opened ∈ opened ∨ p ≤ pair.opened) ∧ p ≤ pair.closed ∧ pair.opened < pair.closed := by
  fun_induction bracesFrom p opened pieces with
  | case1 => cases h
  | case2 p opened rest ih =>
    have hnext := p.lt_next '\x7b'
    have hstack : ∀ q ∈ p :: opened, q < p.next '\x7b' :=
      List.forall_mem_cons.2 ⟨hnext, fun q hq => (hopened q hq).trans hnext⟩
    obtain ⟨hopen, hclosed, hlt⟩ := ih hstack h
    refine ⟨?_, hnext.le.trans hclosed, hlt⟩
    rcases hopen with hmem | hle
    · rcases List.mem_cons.1 hmem with heq | hmem
      · exact .inr heq.ge
      · exact .inl hmem
    · exact .inr (hnext.le.trans hle)
  | case3 p rest ih =>
    have hnext := p.lt_next '\x7d'
    obtain ⟨hopen, hclosed, hlt⟩ := ih (List.forall_mem_nil _) h
    exact ⟨hopen.imp_right hnext.le.trans, hnext.le.trans hclosed, hlt⟩
  | case4 p rest first opened ih =>
    have hnext := p.lt_next '\x7d'
    obtain ⟨hfirst, hrest⟩ := List.forall_mem_cons.1 hopened
    rcases List.mem_cons.1 h with rfl | h
    · exact ⟨.inl List.mem_cons_self, le_refl p, hfirst⟩
    · obtain ⟨hopen, hclosed, hlt⟩ := ih (fun q hq => (hrest q hq).trans hnext) h
      exact ⟨hopen.imp (List.mem_cons_of_mem _) hnext.le.trans, hnext.le.trans hclosed, hlt⟩
  | case5 p opened piece rest _ _ ih =>
    have hafter := p.le_after piece.chars
    obtain ⟨hopen, hclosed, hlt⟩ := ih (fun q hq => (hopened q hq).trans_le hafter) h
    exact ⟨hopen.imp_right hafter.trans, hafter.trans hclosed, hlt⟩

/-- Of two pairs the one that closes later opens behind the other or around it. -/
theorem pairwise_bracesFrom (hopened : (p :: opened).Pairwise (· > ·)) :
    (bracesFrom p opened pieces).Pairwise fun a b => a.closed < b.opened ∨ a.Inside b := by
  fun_induction bracesFrom p opened pieces with
  | case1 => exact .nil
  | case2 p opened rest ih =>
    refine ih (hopened.cons fun q hq => ?_)
    have hnext := p.lt_next '\x7b'
    rcases List.mem_cons.1 hq with rfl | hq
    · exact hnext
    · exact ((List.pairwise_cons.1 hopened).1 q hq).trans hnext
  | case3 p rest ih => exact ih (List.pairwise_singleton _ _)
  | case4 p rest first opened ih =>
    have hnext := p.lt_next '\x7d'
    obtain ⟨hlast, hstack⟩ := List.pairwise_cons.1 hopened
    obtain ⟨hfirst, hrest⟩ := List.pairwise_cons.1 hstack
    have hbelow : ∀ q ∈ opened, q < p.next '\x7d' := fun q hq =>
      (hlast q (List.mem_cons_of_mem _ hq)).trans hnext
    refine .cons (fun b hb => ?_) (ih (hrest.cons hbelow))
    obtain ⟨hopen, hclosed, -⟩ := of_mem_bracesFrom hbelow hb
    rcases hopen with hmem | hle
    · exact .inr ⟨hfirst _ hmem, hnext.trans_le hclosed⟩
    · exact .inl (hnext.trans_le hle)
  | case5 p opened piece rest _ _ ih =>
    obtain ⟨hlast, hstack⟩ := List.pairwise_cons.1 hopened
    exact ih (hstack.cons fun q hq => (hlast q hq).trans_le (p.le_after piece.chars))

/-! ### Sorting by where pairs open -/

theorem perm_insertPair (pair : BracePair) (pairs : List BracePair) :
    (insertPair pair pairs).Perm (pair :: pairs) := by
  induction pairs with
  | nil => rfl
  | cons first rest ih =>
    rw [insertPair]
    split
    · rfl
    · exact (ih.cons first).trans (.swap pair first rest)

theorem sorted_insertPair (h : pairs.Pairwise fun a b => a.opened ≤ b.opened) :
    (insertPair pair pairs).Pairwise fun a b => a.opened ≤ b.opened := by
  induction pairs with
  | nil => exact List.pairwise_singleton _ _
  | cons first rest ih =>
    obtain ⟨hfirst, hrest⟩ := List.pairwise_cons.1 h
    rw [insertPair]
    split
    · next hlt =>
      exact .cons (List.forall_mem_cons.2 ⟨hlt.le, fun b hb => hlt.le.trans (hfirst b hb)⟩) h
    · next hnot =>
      refine .cons (fun b hb => ?_) (ih hrest)
      rcases List.mem_cons.1 ((perm_insertPair pair rest).mem_iff.1 hb) with rfl | hb
      · exact not_lt.1 hnot
      · exact hfirst b hb

theorem perm_foldr_insertPair (pairs : List BracePair) :
    (pairs.foldr insertPair []).Perm pairs := by
  induction pairs with
  | nil => rfl
  | cons first rest ih => exact (perm_insertPair first _).trans (ih.cons first)

theorem sorted_foldr_insertPair (pairs : List BracePair) :
    (pairs.foldr insertPair []).Pairwise fun a b => a.opened ≤ b.opened := by
  induction pairs with
  | nil => exact .nil
  | cons first rest ih => exact sorted_insertPair ih

/-- The brace pairs of a text are nested. -/
theorem nested_braces (source : String) : Nested (scan source).braces := by
  have hempty : ∀ q ∈ ([] : List Position), q < (⟨1, 1⟩ : Position) := List.forall_mem_nil _
  have hordered : ∀ pair ∈ bracesFrom ⟨1, 1⟩ [] (Lexeme.lexemes source.toList),
      pair.opened < pair.closed := fun pair h => (of_mem_bracesFrom hempty h).2.2
  have hclosing : (bracesFrom ⟨1, 1⟩ [] (Lexeme.lexemes source.toList)).Pairwise
      fun a b => a.opened ≠ b.opened ∧ a.Laminar b := by
    refine (pairwise_bracesFrom (List.pairwise_singleton _ _)).imp_of_mem fun ha _ h => ?_
    rcases h with hbehind | hinside
    · exact ⟨((hordered _ ha).trans hbehind).ne, .inl (.inl hbehind)⟩
    · exact ⟨hinside.1.ne', .inr (.inl hinside)⟩
  have hperm := perm_foldr_insertPair (bracesFrom ⟨1, 1⟩ [] (Lexeme.lexemes source.toList))
  have hdistinct := (hperm.pairwise_iff fun h => ⟨h.1.symm, h.2.symm⟩).2 hclosing
  refine ⟨?_, fun pair h => hordered pair (hperm.mem_iff.1 h), hdistinct.imp And.right⟩
  exact ((sorted_foldr_insertPair _).and hdistinct).imp fun h => h.1.lt_of_ne h.2.1

/-! ### The innermost pair -/

/-- Whether a pair is the innermost of those around a position: inside all the others. -/
structure Innermost (pairs : List BracePair) (p : Position) (pair : BracePair) : Prop where
  mem : pair ∈ pairs
  encloses : pair.encloses p
  inside : ∀ other ∈ pairs, other.encloses p → other = pair ∨ pair.Inside other

theorem Innermost.unique {a b : BracePair} (ha : Innermost pairs p a) (hb : Innermost pairs p b) :
    a = b := by
  rcases ha.inside b hb.mem hb.encloses with heq | hab
  · exact heq.symm
  rcases hb.inside a ha.mem ha.encloses with heq | hba
  · exact heq
  · exact absurd hab.1 hba.1.asymm

/-- Of two pairs around a position, the one that opens later is inside the other. -/
theorem Nested.inside_of_lt (h : Nested pairs) {a b : BracePair} (ha : a ∈ pairs) (hb : b ∈ pairs)
    (hap : a.encloses p) (hbp : b.encloses p) (hlt : a.opened < b.opened) : b.Inside a := by
  have hne : a ≠ b := fun heq => hlt.ne (congrArg _ heq)
  rcases h.laminar.forall ha hb hne with hapart | hab | hba
  · exact absurd hapart (BracePair.not_apart_of_encloses hap hbp)
  · exact absurd hab.1 hlt.asymm
  · exact hba

theorem Nested.eq_of_opened_eq (h : Nested pairs) {a b : BracePair} (ha : a ∈ pairs)
    (hb : b ∈ pairs) (heq : a.opened = b.opened) : a = b := by
  have hdistinct : (pairs.map (·.opened)).Nodup :=
    List.pairwise_map.2 (h.sorted.imp fun hlt => hlt.ne)
  exact List.inj_on_of_nodup_map hdistinct ha hb heq

/-- The last of the pairs around a position is the innermost. -/
theorem Nested.getLast?_eq_some_iff (h : Nested pairs) :
    (pairs.filter (·.encloses p)).getLast? = some pair ↔ Innermost pairs p pair := by
  have hlast : ∀ pair, (pairs.filter (·.encloses p)).getLast? = some pair →
      Innermost pairs p pair := by
    intro pair hpair
    obtain ⟨before, hsplit⟩ := List.getLast?_eq_some_iff.1 hpair
    have hsorted := h.sorted.filter (·.encloses p)
    rw [hsplit] at hsorted
    have hmem : ∀ other, other ∈ before ++ [pair] ↔ other ∈ pairs ∧ other.encloses p := by
      intro other
      rw [← hsplit, List.mem_filter]
    obtain ⟨hpairs, hencloses⟩ := (hmem pair).1 (by simp)
    refine ⟨hpairs, hencloses, fun other hother henclosed => ?_⟩
    rcases List.mem_append.1 ((hmem other).2 ⟨hother, henclosed⟩) with hbefore | hself
    · have hlt := (List.pairwise_append.1 hsorted).2.2 other hbefore pair List.mem_cons_self
      exact .inr (h.inside_of_lt hother hpairs henclosed hencloses hlt)
    · exact .inl (List.mem_singleton.1 hself)
  refine ⟨hlast pair, fun hinner => ?_⟩
  cases hfound : (pairs.filter (·.encloses p)).getLast? with
  | none =>
    have hnone := List.filter_eq_nil_iff.1 (List.getLast?_eq_none_iff.1 hfound)
    exact absurd hinner.encloses (hnone pair hinner.mem)
  | some found => rw [(hlast found hfound).unique hinner]

end Scan

namespace Attach

open Scan (Nested Innermost)

variable {braces : List BracePair} {p : Position}

/-! ### Looking for the innermost pair backwards -/

/-- The number of pairs at the head of a sorted list that open before a position, by halving the
part of the list where the first other pair is. -/
def lowerBound (braces : List BracePair) (p : Position) (low high : Nat) : Nat :=
  if low < high then
    if braces[(low + high) / 2]?.any (·.opened < p) then
      lowerBound braces p ((low + high) / 2 + 1) high
    else lowerBound braces p low ((low + high) / 2)
  else low
termination_by high - low

/-- The last of the first pairs of a list that is around a position. -/
def lookBack (braces : List BracePair) (p : Position) : Nat → Option BracePair
  | 0 => none
  | count + 1 =>
    match braces[count]? with
    | some pair => if pair.encloses p then some pair else lookBack braces p count
    | none => lookBack braces p count

/-- The pair around a position, looked for backwards from the last that opens before it. -/
def searchBack (braces : List BracePair) (p : Position) : Option BracePair :=
  lookBack braces p (lowerBound braces p 0 braces.length)

theorem opened_le_of_le (hsorted : braces.Pairwise fun a b => a.opened < b.opened) {i j : Nat}
    {a b : BracePair} (ha : braces[i]? = some a) (hb : braces[j]? = some b) (hij : i ≤ j) :
    a.opened ≤ b.opened := by
  obtain ⟨hi, rfl⟩ := List.getElem?_eq_some_iff.1 ha
  obtain ⟨hj, rfl⟩ := List.getElem?_eq_some_iff.1 hb
  rcases hij.lt_or_eq with hlt | rfl
  · exact (List.pairwise_iff_getElem.1 hsorted i j hi hj hlt).le
  · exact le_refl _

/-- The pairs before the bound open before the position, and the others do not. -/
theorem lt_lowerBound_iff (hsorted : braces.Pairwise fun a b => a.opened < b.opened) {low high : Nat}
    (hhigh : high ≤ braces.length)
    (hbefore : ∀ i pair, braces[i]? = some pair → i < low → pair.opened < p)
    (hbehind : ∀ i pair, braces[i]? = some pair → high ≤ i → ¬ pair.opened < p) :
    ∀ i pair, braces[i]? = some pair →
      (i < lowerBound braces p low high ↔ pair.opened < p) := by
  fun_induction lowerBound braces p low high with
  | case1 low high hlt hmiddle ih =>
    obtain ⟨middle, hget, hopened⟩ := (Option.any_eq_true ..).1 hmiddle
    refine ih hhigh (fun i pair hpair hi => ?_) hbehind
    exact (opened_le_of_le hsorted hpair hget (by omega)).trans_lt (of_decide_eq_true hopened)
  | case2 low high hlt hmiddle ih =>
    refine ih (by omega) hbefore fun i pair hpair hi hopened => hmiddle ?_
    obtain ⟨middle, hget⟩ : ∃ middle, braces[(low + high) / 2]? = some middle :=
      ⟨_, List.getElem?_eq_getElem (by omega)⟩
    have hbefore := (opened_le_of_le hsorted hget hpair hi).trans_lt hopened
    simp [hget, hbefore]
  | case3 low high hnot =>
    intro i pair hpair
    rcases Nat.lt_or_ge i low with hi | hi
    · exact iff_of_true hi (hbefore i pair hpair hi)
    · exact iff_of_false (by omega) (hbehind i pair hpair (by omega))

theorem lookBack_eq (braces : List BracePair) (p : Position) (count : Nat) :
    lookBack braces p count = ((braces.take count).filter (·.encloses p)).getLast? := by
  induction count with
  | zero => rfl
  | succ count ih =>
    rw [lookBack, List.take_add_one, List.filter_append]
    split
    · next pair hpair =>
      rw [hpair]
      by_cases hencloses : pair.encloses p <;> simp [hencloses, ih]
    · next hnone => simp [hnone, ih]

/-- Looking backwards from the bound finds the last of the pairs around a position. -/
theorem searchBack_eq (hsorted : braces.Pairwise fun a b => a.opened < b.opened) :
    searchBack braces p = (braces.filter (·.encloses p)).getLast? := by
  have hnone : ∀ i pair, braces[i]? = some pair → braces.length ≤ i → ¬ pair.opened < p := by
    intro i pair hpair hi
    rw [List.getElem?_eq_none hi] at hpair
    cases hpair
  have hbound := lt_lowerBound_iff hsorted le_rfl
    (fun i _ _ hi => absurd hi (Nat.not_lt_zero i)) hnone
  have hbehind :
      (braces.drop (lowerBound braces p 0 braces.length)).filter (·.encloses p) = [] := by
    refine List.filter_eq_nil_iff.2 fun pair hpair hencloses => ?_
    obtain ⟨i, hi⟩ := List.mem_iff_getElem?.1 hpair
    rw [List.getElem?_drop] at hi
    have hlt := (hbound _ pair hi).2 (BracePair.encloses_iff.1 hencloses).1
    omega
  conv_rhs => rw [← List.take_append_drop (lowerBound braces p 0 braces.length) braces,
    List.filter_append, hbehind, List.append_nil]
  exact lookBack_eq ..

/-! ### The container of a comment -/

theorem mem_of_span? {container : Container} {pair : BracePair}
    (h : span? braces container = some pair) : pair ∈ braces := by
  unfold span? at h
  split at h
  · exact List.mem_of_mem_filter (List.mem_of_getLast? h)
  · split at h
    · exact List.mem_of_find?_eq_some h
    · cases h

/-- A container's span is one of the brace pairs, and it is none of the unit's. -/
theorem of_mem_spans {unit : Tree} {span : BracePair × Address} (h : span ∈ spans braces unit) :
    span.1 ∈ braces ∧ span.2 ≠ [] := by
  obtain ⟨container, hcontainer, hspan⟩ := List.mem_filterMap.1 h
  obtain ⟨pair, hpair, rfl⟩ := Option.map_eq_some_iff.1 hspan
  exact ⟨mem_of_span? hpair, by simpa using (List.mem_filter.1 hcontainer).2⟩

theorem innermost_eq_none_iff {spans : List (BracePair × Address)} :
    innermost spans = none ↔ spans = [] := by
  cases spans with
  | nil => simp [innermost]
  | cons first rest =>
    rw [innermost]
    split <;> simp

/-- No span opens later than the one that is chosen. -/
theorem opened_le_of_innermost {spans : List (BracePair × Address)} {inner : BracePair × Address}
    (h : innermost spans = some inner) : ∀ span ∈ spans, span.1.opened ≤ inner.1.opened := by
  induction spans generalizing inner with
  | nil => cases h
  | cons first rest ih =>
    rw [innermost] at h
    cases hrest : innermost rest with
    | none =>
      rw [hrest] at h
      obtain rfl := Option.some.inj h
      rw [innermost_eq_none_iff.1 hrest]
      simp
    | some other =>
      rw [hrest] at h
      obtain rfl := Option.some.inj h
      refine List.forall_mem_cons.2 ?_
      split
      · next hlt => exact ⟨hlt.le, ih hrest⟩
      · next hnot =>
        exact ⟨le_refl _, fun span hspan => (ih hrest span hspan).trans (not_lt.1 hnot)⟩

/-- Whether a comment at a position belongs to the container at an address: the unit if no
container's span is around the comment, and else one whose span is, inside all the others that are.
-/
def Owns (spans : List (BracePair × Address)) (p : Position) (address : Address) : Prop :=
  address = [] ∧ (∀ span ∈ spans, ¬ span.1.encloses p) ∨
  address ≠ [] ∧ ∃ pair, (pair, address) ∈ spans ∧ pair.encloses p ∧
    ∀ span ∈ spans, span.1.encloses p → span.1 = pair ∨ pair.Inside span.1

theorem owns_owner (h : Nested braces) (unit : Tree) (p : Position) :
    Owns (spans braces unit) p (owner (spans braces unit) (some p)) := by
  rw [owner]
  cases hinner : innermost ((spans braces unit).filter (·.1.encloses p)) with
  | none =>
    refine .inl ⟨rfl, fun span hspan => ?_⟩
    exact List.filter_eq_nil_iff.1 (innermost_eq_none_iff.1 hinner) span hspan
  | some inner =>
    obtain ⟨hspan, hencloses⟩ := List.mem_filter.1 (mem_of_innermost hinner)
    obtain ⟨hpair, haddress⟩ := of_mem_spans hspan
    refine .inr ⟨haddress, inner.1, hspan, hencloses, fun span hother henclosed => ?_⟩
    have hle := opened_le_of_innermost hinner span (List.mem_filter.2 ⟨hother, henclosed⟩)
    rcases hle.lt_or_eq with hlt | heq
    · exact .inr (h.inside_of_lt (of_mem_spans hother).1 hpair henclosed hencloses hlt)
    · exact .inl (h.eq_of_opened_eq (of_mem_spans hother).1 hpair heq)

theorem owner_eq_nil_iff (h : Nested braces) (unit : Tree) (p : Position) :
    owner (spans braces unit) (some p) = [] ↔ ∀ span ∈ spans braces unit, ¬ span.1.encloses p := by
  rcases owns_owner h unit p with ⟨hunit, hnone⟩ | ⟨hne, pair, hspan, hencloses, -⟩
  · exact iff_of_true hunit hnone
  · exact iff_of_false hne fun hnone => hnone _ hspan hencloses

end Attach

open Attach in
/-- **Comments go to the innermost container.** The brace pairs of a text are nested. The span of a
container with a child whose position is known is the innermost pair around the first such child,
and looking for it backwards from the last pair that opens before the child finds it. And a comment
goes to a container whose span is inside all other container spans around it, or to the unit, just
if there is no container span around it. -/
theorem comment_to_innermost (source : String) :
    Scan.Nested (scan source).braces ∧
    (∀ container first, container.starts.findSome? id = some first →
      span? (scan source).braces container = searchBack (scan source).braces first ∧
      (∀ pair, span? (scan source).braces container = some pair ↔
        Scan.Innermost (scan source).braces first pair) ∧
      (span? (scan source).braces container = none ↔
        ∀ pair ∈ (scan source).braces, ¬ pair.encloses first)) ∧
    ∀ unit p,
      Owns (spans (scan source).braces unit) p
        (owner (spans (scan source).braces unit) (some p)) ∧
      (owner (spans (scan source).braces unit) (some p) = [] ↔
        ∀ span ∈ spans (scan source).braces unit, ¬ span.1.encloses p) := by
  have hnested := Scan.nested_braces source
  refine ⟨hnested, fun container first hfirst => ?_, fun unit p =>
    ⟨owns_owner hnested unit p, owner_eq_nil_iff hnested unit p⟩⟩
  have hspan : span? (scan source).braces container =
      ((scan source).braces.filter (·.encloses first)).getLast? := by
    rw [span?, hfirst]
  rw [hspan, searchBack_eq hnested.sorted]
  refine ⟨rfl, fun pair => hnested.getLast?_eq_some_iff, ?_⟩
  rw [List.getLast?_eq_none_iff, List.filter_eq_nil_iff]

/-- Of two nested pairs the inner one is the span of a container with a child in it. -/
theorem comment_to_innermost_nestedBraces :
    let braces := (scan "\x7b \x7b x \x7d /* c */ \x7d").braces
    let container : Attach.Container := ⟨[0], [none, some ⟨1, 5⟩], none⟩
    Attach.span? braces container = Attach.searchBack braces ⟨1, 5⟩ ∧
      Scan.Innermost braces ⟨1, 5⟩ ⟨⟨1, 3⟩, ⟨1, 7⟩⟩ := by
  intro braces container
  obtain ⟨-, hspan, -⟩ := comment_to_innermost "\x7b \x7b x \x7d /* c */ \x7d"
  obtain ⟨hsearch, hinner, -⟩ := hspan container ⟨1, 5⟩ rfl
  exact ⟨hsearch, (hinner _).1 (by decide +kernel)⟩

end Recast
