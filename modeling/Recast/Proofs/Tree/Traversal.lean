import Mathlib
import Recast.Proofs.Tree.Substitute
import Recast.Tree.Address

/-!
Where the nodes of a tree stand, and which of them the traversals reach.

Equal trees may stand at several sites of one tree, so a node has ancestors only together with its
address. `sites` lists the nodes with their addresses: all addresses that lead to a node
(`mem_sites`), in reading order (`sites_pairwise`), and the nodes as `nodes` lists them
(`map_node_sites`). One site is above another if its address is a proper prefix of the other's, and
a node is exposed if no node of the given kinds stands above it.

`traversals_agree` says in these terms what recording and removing come to. A recording that looks
inside the nodes it records finds all nodes of the kinds, and one that does not finds the exposed
ones; removing leaves the exposed nodes of other kinds, each with all it held beside nodes.
-/

namespace Recast

variable {α β : Type}

/-- What is made of the entries of a list without their numbers. -/
theorem flatMap_zipIdx_fst (g : α → List β) (items : List α) (n : Nat) :
    ((items.zipIdx n).flatMap fun entry => g entry.1) = items.flatMap g := by
  rw [← List.flatMap_map, List.zipIdx_map_fst]

/-! ### Sites -/

/-- A node of a tree, and where in the tree it stands. -/
structure Site where
  address : Address
  node : Tree

namespace Site

/-- The place in a parent that holds the tree as its child of this number. -/
def under (i : Nat) (p : Site) : Site := ⟨i :: p.address, p.node⟩

/-- Whether the way from the root to the second place leads through the first. -/
def Above (p q : Site) : Prop := p.address <+: q.address ∧ p.address ≠ q.address

instance (p q : Site) : Decidable (p.Above q) :=
  inferInstanceAs (Decidable (p.address <+: q.address ∧ p.address ≠ q.address))

@[simp]
theorem node_under (i : Nat) (p : Site) : (p.under i).node = p.node := rfl

@[simp]
theorem address_under (i : Nat) (p : Site) : (p.under i).address = i :: p.address := rfl

theorem not_above_root (p : Site) (t : Tree) : ¬ p.Above ⟨[], t⟩ := by
  rintro ⟨hleads, hne⟩
  exact hne (List.prefix_nil.1 hleads)

theorem root_above_under (t : Tree) (i : Nat) (p : Site) : Above ⟨[], t⟩ (p.under i) :=
  ⟨List.nil_prefix, List.cons_ne_nil i p.address |>.symm⟩

/-- Places in different children are not above each other. -/
theorem under_above_under {i j : Nat} {p q : Site} :
    (p.under j).Above (q.under i) ↔ j = i ∧ p.Above q := by
  simp only [Above, address_under, List.cons_prefix_cons, ne_eq, List.cons.injEq]
  tauto

end Site

namespace Tree

variable {kinds : List String} {t : Tree} {trivia : Trivia} {form : Form Tree}

/-- The nodes of a tree with their addresses, each before those below it. -/
def sites : Tree → List Site :=
  fold fun node layer =>
    (if node.isNode then [⟨[], node⟩] else [])
      ++ layer.children.zipIdx.flatMap fun (below, i) => below.map (.under i)

theorem nodes_node (trivia : Trivia) (form : Form Tree) :
    nodes (.node trivia form) =
      (if (node trivia form).isNode then [node trivia form] else [])
        ++ form.children.flatMap nodes := by
  rw [nodes, walk_node, List.filter_cons, List.filter_flatMap]
  split <;> rfl

theorem sites_node (trivia : Trivia) (form : Form Tree) :
    sites (.node trivia form) =
      (if (node trivia form).isNode then [⟨[], node trivia form⟩] else [])
        ++ form.children.zipIdx.flatMap fun (child, i) => child.sites.map (.under i) := by
  rw [sites, fold_node, Form.children_map, List.zipIdx_map, List.flatMap_map]
  rfl

/-- The sites hold the nodes in order. -/
theorem map_node_sites (t : Tree) : t.sites.map Site.node = t.nodes := by
  induction t using Tree.induct with
  | step trivia form ih =>
    rw [sites_node, nodes_node, List.map_append, List.map_flatMap]
    congr 1
    · split <;> rfl
    · rw [← flatMap_zipIdx_fst nodes form.children 0]
      refine List.flatMap_congr fun ⟨child, i⟩ hchild => ?_
      have hmem := List.mem_of_getElem? (List.mem_zipIdx_iff_getElem?.1 hchild)
      rw [← ih child hmem, List.map_map]
      rfl

/-- A place of a tree is its root or a place in one of its children. -/
theorem mem_sites_node {p : Site} :
    p ∈ sites (.node trivia form) ↔
      (node trivia form).isNode ∧ p = ⟨[], node trivia form⟩ ∨
        ∃ i, ∃ child : Tree, form.children[i]? = some child ∧
          ∃ q ∈ child.sites, p = q.under i := by
  rw [sites_node, List.mem_append, List.mem_flatMap]
  have hroot : p ∈ (if (node trivia form).isNode then [⟨[], node trivia form⟩] else []) ↔
      (node trivia form).isNode ∧ p = ⟨[], node trivia form⟩ := by
    split <;> simp_all
  refine or_congr hroot ⟨?_, ?_⟩
  · rintro ⟨⟨child, i⟩, hchild, hp⟩
    obtain ⟨q, hq, rfl⟩ := List.mem_map.1 hp
    exact ⟨i, child, List.mem_zipIdx_iff_getElem?.1 hchild, q, hq, rfl⟩
  · rintro ⟨i, child, hchild, q, hq, rfl⟩
    exact ⟨(child, i), List.mem_zipIdx_iff_getElem?.2 hchild, List.mem_map_of_mem hq⟩

/-- The sites are the addresses that lead to a node. -/
theorem mem_sites {p : Site} :
    p ∈ t.sites ↔ t.nodeAt? p.address = some p.node ∧ p.node.isNode := by
  induction t using Tree.induct generalizing p with
  | step trivia form ih =>
    constructor
    · intro hp
      obtain ⟨hnode, rfl⟩ | ⟨i, child, hchild, q, hq, rfl⟩ := mem_sites_node.1 hp
      · exact ⟨rfl, hnode⟩
      · obtain ⟨hleads, hnode⟩ := (ih child (List.mem_of_getElem? hchild)).1 hq
        exact ⟨Option.bind_eq_some_iff.2 ⟨child, hchild, hleads⟩, hnode⟩
    · rintro ⟨hleads, hnode⟩
      obtain ⟨address, target⟩ := p
      cases address with
      | nil =>
        obtain rfl := Option.some.inj hleads
        exact mem_sites_node.2 (Or.inl ⟨hnode, rfl⟩)
      | cons i rest =>
        obtain ⟨child, hchild, hbelow⟩ := Option.bind_eq_some_iff.1 hleads
        have hq : ⟨rest, target⟩ ∈ child.sites :=
          (ih child (List.mem_of_getElem? hchild)).2 ⟨hbelow, hnode⟩
        exact mem_sites_node.2 (Or.inr ⟨i, child, hchild, _, hq, rfl⟩)

/-- The sites stand in the order of their addresses, so no address is listed twice. -/
theorem sites_pairwise (t : Tree) : t.sites.Pairwise fun p q => p.address < q.address := by
  induction t using Tree.induct with
  | step trivia form ih =>
    rw [sites_node, List.pairwise_append, List.pairwise_flatMap]
    refine ⟨by split <;> simp, ⟨?_, ?_⟩, ?_⟩
    · rintro ⟨child, i⟩ hchild
      have hmem := List.mem_of_getElem? (List.mem_zipIdx_iff_getElem?.1 hchild)
      refine List.pairwise_map.2 ((ih child hmem).imp fun h => ?_)
      exact List.cons_lt_cons_self.2 h
    · have hindices : form.children.zipIdx.Pairwise fun one other => one.2 < other.2 := by
        rw [← List.pairwise_map (f := Prod.snd), List.zipIdx_map_snd]
        exact List.pairwise_lt_range'
      refine hindices.imp fun hlt p hp q hq => ?_
      obtain ⟨p', -, rfl⟩ := List.mem_map.1 hp
      obtain ⟨q', -, rfl⟩ := List.mem_map.1 hq
      exact List.Lex.rel hlt
    · intro p hp q hq
      obtain ⟨⟨child, i⟩, -, hq⟩ := List.mem_flatMap.1 hq
      obtain ⟨q', -, rfl⟩ := List.mem_map.1 hq
      split at hp
      · obtain rfl := List.mem_singleton.1 hp
        exact List.Lex.nil
      · cases hp

/-! ### What stands above a node -/

/-- Whether no node above a place is of one of the kinds. -/
def ClearAbove (kinds : List String) (t : Tree) (p : Site) : Prop :=
  ∀ q ∈ t.sites, q.Above p → ¬ q.node.isOf kinds

instance (kinds : List String) (t : Tree) : DecidablePred (t.ClearAbove kinds) := fun p =>
  inferInstanceAs (Decidable (∀ q ∈ t.sites, q.Above p → ¬ q.node.isOf kinds))

/-- The nodes that stand below no node of the kinds, in the order of `nodes`. -/
def exposed (kinds : List String) (t : Tree) : List Tree :=
  (t.sites.filter (t.ClearAbove kinds)).map Site.node

theorem clearAbove_root (kinds : List String) (t root : Tree) : t.ClearAbove kinds ⟨[], root⟩ :=
  fun q _ habove => absurd habove (q.not_above_root root)

/-- What is above a place in a child: the parent, and what is above it in the child. -/
theorem clearAbove_under {i : Nat} {child : Tree} {p : Site}
    (hchild : form.children[i]? = some child) :
    (node trivia form).ClearAbove kinds (p.under i) ↔
      ¬ (node trivia form).isOf kinds ∧ child.ClearAbove kinds p := by
  constructor
  · intro h
    refine ⟨fun hroot => ?_, fun q hq habove => ?_⟩
    · have hnode : (node trivia form).isNode := (Bool.and_eq_true_iff.1 hroot).1
      exact h _ (mem_sites_node.2 (Or.inl ⟨hnode, rfl⟩)) (Site.root_above_under _ i p) hroot
    · exact h (q.under i) (mem_sites_node.2 (Or.inr ⟨i, child, hchild, q, hq, rfl⟩))
        (Site.under_above_under.2 ⟨rfl, habove⟩)
  · rintro ⟨hroot, hbelow⟩ above hmem habove
    obtain ⟨-, rfl⟩ | ⟨j, other, hother, q, hq, rfl⟩ := mem_sites_node.1 hmem
    · exact hroot
    · obtain ⟨rfl, hq'⟩ := Site.under_above_under.1 habove
      obtain rfl := Option.some.inj (hother.symm.trans hchild)
      exact hbelow q hq hq'

/-- A node of the kinds hides all that stands below it. -/
theorem exposed_node (kinds : List String) (trivia : Trivia) (form : Form Tree) :
    exposed kinds (.node trivia form) =
      (if (node trivia form).isNode then [node trivia form] else [])
        ++ if (node trivia form).isOf kinds then [] else form.children.flatMap (exposed kinds) := by
  -- The parent either hides a child as a whole or leaves it as exposed as it is by itself.
  have hbelow : ∀ entry ∈ form.children.zipIdx,
      (((entry.1.sites.map (.under entry.2)).filter
          ((node trivia form).ClearAbove kinds)).map Site.node) =
        if (node trivia form).isOf kinds then [] else exposed kinds entry.1 := by
    rintro ⟨child, i⟩ hchild
    simp only [List.filter_map, Function.comp_def, List.map_map,
      clearAbove_under (List.mem_zipIdx_iff_getElem?.1 hchild), Site.node_under]
    split <;> simp_all [exposed]
  rw [exposed, sites_node, List.filter_append, List.map_append, List.filter_flatMap,
    List.map_flatMap, List.flatMap_congr hbelow]
  congr 1
  · split <;> simp [clearAbove_root]
  · split
    · simp
    · exact flatMap_zipIdx_fst (exposed kinds) form.children 0

/-! ### Recording -/

theorem record_node (kinds : List String) (descend : Bool) (trivia : Trivia) (form : Form Tree) :
    record kinds descend (.node trivia form) =
      if (node trivia form).isOf kinds then
        node trivia form ::
          if descend then form.children.flatMap (record kinds descend) else []
      else form.children.flatMap (record kinds descend) := by
  rw [record, fold_node, Form.children_map]
  rfl

/-- Only nodes are of a kind. -/
theorem filter_isOf_root (kinds : List String) (t : Tree) :
    (if t.isNode then [t] else []).filter (isOf kinds) = if t.isOf kinds then [t] else [] := by
  cases h : t.isNode <;> simp [isOf, h, List.filter_singleton]

/-- A recording that looks inside what it records finds every node of the kinds. -/
theorem record_descending (kinds : List String) (t : Tree) :
    t.record kinds true = t.nodes.filter (isOf kinds) := by
  induction t using Tree.induct with
  | step trivia form ih =>
    rw [record_node, nodes_node, List.filter_append, filter_isOf_root, List.filter_flatMap,
      List.flatMap_congr ih]
    split <;> simp

/-- A recording that does not look inside what it records finds the exposed nodes of the kinds. -/
theorem record_stopping (kinds : List String) (t : Tree) :
    t.record kinds false = (t.exposed kinds).filter (isOf kinds) := by
  induction t using Tree.induct with
  | step trivia form ih =>
    rw [record_node, exposed_node, List.filter_append, filter_isOf_root]
    split
    · simp
    · rw [List.filter_flatMap, List.flatMap_congr ih]
      simp

/-! ### Removing -/

/-- The kind of what stands in a node's place and is none. -/
def foreign? (t : Tree) : Option String :=
  match t.form with
  | .foreign kind => some kind
  | _ => none

/-- What a tree holds beside the nodes below it: its trivia, and its layer with only those children
that are no nodes. -/
def own (t : Tree) : Trivia × Form String := (t.trivia, t.form.filterMap foreign?)

theorem remove_node (kinds : List String) (trivia : Trivia) (form : Form Tree) :
    remove kinds (.node trivia form) =
      if (node trivia form).isOf kinds then none
      else some (node trivia (form.filterMap (remove kinds))) :=
  substitute?_node _ trivia form

theorem isNode_filterMap (f : Tree → Option Tree) (trivia : Trivia) (form : Form Tree) :
    (node trivia (form.filterMap f)).isNode = (node trivia form).isNode := by
  cases form <;> rfl

/-- What is no node stays, and what stays in a node's place is a node. -/
theorem foreign?_remove (kinds : List String) (t : Tree) :
    (t.remove kinds).bind foreign? = t.foreign? := by
  cases t with
  | node trivia form =>
    rw [remove_node]
    cases form with
    | foreign kind => rfl
    | _ => split <;> rfl

/-- A node over what is left of its children holds what it held beside them. -/
theorem own_filterMap_remove (kinds : List String) (trivia : Trivia) (form : Form Tree) :
    own (node trivia (form.filterMap (remove kinds))) = own (node trivia form) := by
  simp only [own, form_node, trivia_node, Form.filterMap_filterMap, foreign?_remove]

/-- Removing leaves the exposed nodes of other kinds. -/
theorem nodes_remove (kinds : List String) (t : Tree) :
    ((t.remove kinds).toList.flatMap nodes).map own =
      ((t.exposed kinds).filter (!·.isOf kinds)).map own := by
  induction t using Tree.induct with
  | step trivia form ih =>
    -- A removed child lists no nodes, and by induction exposes none of other kinds either.
    have hbelow : ((form.children.filterMap (remove kinds)).flatMap nodes).map own =
        ((form.children.flatMap (exposed kinds)).filter (!·.isOf kinds)).map own := by
      rw [List.filterMap_eq_flatMap_toList, List.flatMap_assoc, List.map_flatMap,
        List.filter_flatMap, List.map_flatMap]
      exact List.flatMap_congr ih
    rw [remove_node, exposed_node]
    split
    · split <;> simp [*]
    · rw [Option.toList_some, List.flatMap_singleton, nodes_node, isNode_filterMap,
        Form.children_filterMap, List.map_append, hbelow, List.filter_append, List.map_append]
      congr 1
      split <;> simp [*, own_filterMap_remove]

theorem kind_own (t : Tree) : t.own.2.kind = t.kind := by
  cases t with
  | node trivia form =>
    rcases form with form | form | form | form | form | kind
    case foreign => rfl
    all_goals cases form <;> rfl

/-! ### The traversals together -/

/-- All traversals reach the same nodes in the same order: a recording finds the nodes of the kinds,
all of them or those with no other above them, and removing leaves just those that are of other
kinds and have none of the kinds above them, each with what it held beside nodes. -/
theorem traversals_agree (kinds : List String) (t : Tree) :
    t.sites.map Site.node = t.nodes ∧
      t.record kinds true = t.nodes.filter (isOf kinds) ∧
      t.record kinds false = (t.exposed kinds).filter (isOf kinds) ∧
      (t.kind ∉ kinds → ∃ rest, t.remove kinds = some rest ∧
        rest.nodes.map own = ((t.exposed kinds).filter (!·.isOf kinds)).map own) := by
  refine ⟨map_node_sites t, record_descending kinds t, record_stopping kinds t, ?_⟩
  intro hkind
  have hstays : t.isOf kinds = false := by simp [isOf, hkind]
  have hnodes := nodes_remove kinds t
  cases t with
  | node trivia form =>
    have hremove : remove kinds (.node trivia form) =
        some (node trivia (form.filterMap (remove kinds))) := by
      rw [remove_node, hstays]
      rfl
    rw [hremove, Option.toList_some, List.flatMap_singleton] at hnodes
    exact ⟨_, hremove, hnodes⟩

/-- The loop `for (int i = first(last()); ; null, i++) new int[size(2)][][3]`, where null stands in
the place of an update. -/
def countingLoop : Tree :=
  let tree (column : Int) (form : Form Tree) : Tree := .node { position := some ⟨1, column⟩ } form
  let int (column : Int) : Option Tree := tree column (.type (.primitive (.text "int")))
  let literal (column : Int) (text : String) := tree column (.expr (.literal (.text text)))
  let call (column : Int) (name : String) (arguments : List Tree) :=
    tree column (.expr (.call (.text name) arguments none []))
  let binding := tree 10 (.part (.declarator (.text "i") 0
    (some (call 14 "first" [call 20 "last" []]))))
  let step := tree 37 (.expr (.unary (.text "++")
    (some (tree 37 (.expr (.ident (.text "i"))))) false))
  let array := tree 42 (.expr (.arrayCreate (int 46)
    [some (call 50 "size" [literal 55 "2"]), none, some (literal 61 "3")] none))
  let start := tree 6 (.stmt (.localVariable (int 6) [binding] [] []))
  tree 1 (.stmt (.forLoop (.declaration start) none [.node {} (.foreign "NoneType"), step]
    (some (tree 42 (.stmt (.evaluate (some array)))))))

/-- The loop has a declaration with two calls inside, and a call among the sizes of its array. -/
theorem traversals_agree_countingLoop :
    countingLoop.kind ∉ ["LocalVariableDeclaration", "MethodCall"] ∧
      (countingLoop.record ["LocalVariableDeclaration", "MethodCall"] true).map kind =
        ["LocalVariableDeclaration", "MethodCall", "MethodCall", "MethodCall"] ∧
      (countingLoop.record ["LocalVariableDeclaration", "MethodCall"] false).map kind =
        ["LocalVariableDeclaration", "MethodCall"] ∧
      ∃ rest, countingLoop.remove ["LocalVariableDeclaration", "MethodCall"] = some rest ∧
        (rest.nodes.map fun node => (node.kind, node.position)) =
          [("ForStatement", some ⟨1, 1⟩), ("UnaryExpression", some ⟨1, 37⟩),
            ("Name", some ⟨1, 37⟩), ("ExpressionStatement", some ⟨1, 42⟩),
            ("ArrayCreation", some ⟨1, 42⟩), ("PrimitiveType", some ⟨1, 46⟩),
            ("Literal", some ⟨1, 61⟩)] := by
  have hkind : countingLoop.kind ∉ ["LocalVariableDeclaration", "MethodCall"] := by decide
  obtain ⟨-, hall, houter, hrest⟩ :=
    traversals_agree ["LocalVariableDeclaration", "MethodCall"] countingLoop
  obtain ⟨rest, hremove, howns⟩ := hrest hkind
  refine ⟨hkind, ?_, ?_, rest, hremove, ?_⟩
  · rw [hall]
    decide +kernel
  · rw [houter]
    decide +kernel
  · have hlabels := congrArg (List.map fun o => (o.2.kind, o.1.position)) howns
    simp only [List.map_map, Function.comp_def, kind_own] at hlabels
    exact hlabels.trans (by decide +kernel)

end Tree

end Recast
