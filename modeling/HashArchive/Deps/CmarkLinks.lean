import HashArchive.Deps.CmarkNode
import HashArchive.Foundations.Forests

/-!
# The pointers of a document

A document is a list of children for each node (`Shape`), and the pointers of the nodes are
to be as these lists say: `Linked`. A node is unlinked from its siblings and linked again
elsewhere; in between its own pointers are stale, and it is in limbo.

Taking a node out of a list and putting it into one are the two changes there are.
`Linked.unsplice` and `Linked.splice` say so of the pointers, once and for all, and the functions of
`node.c` are shown to do one after the other: whatever a node is put before, after or last, the
same pointers are set.
-/

set_option autoImplicit false

namespace HashArchive.Cmark

/-! ## The invariant -/

/-- **The pointers are those of the shape.** The pointers of a node in limbo to its siblings and
its parent may be stale. -/
structure Linked (limbo : Option Ref) (nodes : Ref → Option Node) (shape : Shape Ref Content) :
    Prop where
  label : ∀ n, shape.label n = (nodes n).map Node.content
  ends : ∀ n node, nodes n = some node →
    node.firstChild = (shape.kids n).head? ∧ node.lastChild = (shape.kids n).getLast?
  placed : ∀ p before c after, shape.kids p = before ++ c :: after → ∃ node, nodes c = some node ∧
    node.parent = some p ∧ node.prev = before.getLast? ∧ node.next = after.head?
  loose : ∀ c node, nodes c = some node → some c ≠ limbo → (∀ p, c ∉ shape.kids p) →
    node.parent = none ∧ node.prev = none ∧ node.next = none
  dead : ∀ n, nodes n = none → shape.kids n = []
  nodup : ∀ p, (shape.kids p).Nodup
  acyclic : ∃ depth : Ref → ℕ, ∀ p, ∀ c ∈ shape.kids p, depth p < depth c

namespace Linked

variable {limbo : Option Ref} {nodes : Ref → Option Node} {shape : Shape Ref Content}
  {p q c n : Ref} {before after : List Ref}

/-- A child, and its pointer to the parent. -/
theorem parent_of_mem (linked : Linked limbo nodes shape) (child : c ∈ shape.kids p) :
    ∃ node, nodes c = some node ∧ node.parent = some p := by
  obtain ⟨before, after, split⟩ := List.append_of_mem child
  obtain ⟨node, held, parent, -⟩ := linked.placed p before c after split
  exact ⟨node, held, parent⟩

/-- A child is there. -/
theorem exists_child_of_mem (linked : Linked limbo nodes shape) (child : c ∈ shape.kids p) :
    ∃ node, nodes c = some node := by
  obtain ⟨node, held, -⟩ := linked.parent_of_mem child
  exact ⟨node, held⟩

/-- A node has one parent. -/
theorem parent_unique (linked : Linked limbo nodes shape) (first : c ∈ shape.kids p)
    (second : c ∈ shape.kids q) : p = q := by
  obtain ⟨node, held, parent⟩ := linked.parent_of_mem first
  obtain ⟨node', held', parent'⟩ := linked.parent_of_mem second
  cases held.symm.trans held'
  exact Option.some.inj (parent.symm.trans parent')

/-- A node with children is there. -/
theorem exists_of_mem (linked : Linked limbo nodes shape) (child : c ∈ shape.kids p) :
    ∃ node, nodes p = some node := by
  cases held : nodes p with
  | none =>
      rw [linked.dead p held] at child
      cases child
  | some node => exact ⟨node, rfl⟩

/-- No node is its own child. -/
theorem ne_of_mem (linked : Linked limbo nodes shape) (child : c ∈ shape.kids p) : c ≠ p := by
  rintro rfl
  obtain ⟨depth, deeper⟩ := linked.acyclic
  exact absurd (deeper c c child) (Nat.lt_irrefl _)

end Linked

/-! ## Lists of siblings -/

section Siblings

variable {before after front back rest : List Ref} {c x : Ref}

/-- Where an element of two joined lists is. -/
theorem append_eq_append_cons_cases (same : before ++ after = front ++ x :: back) :
    (∃ rest, before = front ++ x :: rest ∧ back = rest ++ after) ∨
      ∃ rest, after = rest ++ x :: back ∧ front = before ++ rest := by
  rcases List.append_eq_append_iff.mp same with ⟨rest, split, right⟩ | ⟨rest, split, right⟩
  · exact .inr ⟨rest, right, split⟩
  · cases rest with
    | nil => exact .inr ⟨[], right.symm, by rw [List.append_nil] at split ⊢; exact split.symm⟩
    | cons y rest =>
        rw [List.cons_append, List.cons.injEq] at right
        obtain ⟨rfl, right⟩ := right
        exact .inl ⟨rest, split, right⟩

/-- Where an element of a list is into which another was put. -/
theorem append_cons_eq_append_cons_cases (same : before ++ c :: after = front ++ x :: back) :
    (∃ rest, before = front ++ x :: rest ∧ back = rest ++ c :: after) ∨
      (x = c ∧ front = before ∧ back = after) ∨
      ∃ rest, after = rest ++ x :: back ∧ front = before ++ c :: rest := by
  rcases append_eq_append_cons_cases same with inBefore | ⟨rest, split, rfl⟩
  · exact .inl inBefore
  · cases rest with
    | nil =>
        rw [List.nil_append, List.cons.injEq] at split
        exact .inr (.inl ⟨split.1.symm, List.append_nil _, split.2.symm⟩)
    | cons y rest =>
        rw [List.cons_append, List.cons.injEq] at split
        obtain ⟨rfl, split⟩ := split
        exact .inr (.inr ⟨rest, split, rfl⟩)

/-- The last element is an element after which there is none. -/
theorem getLast?_eq_some_self (distinct : (front ++ x :: rest).Nodup) :
    (front ++ x :: rest).getLast? = some x ↔ rest = [] := by
  constructor
  · intro last
    cases rest with
    | nil => rfl
    | cons y rest =>
        rw [List.getLast?_append_cons, List.getLast?_cons_cons] at last
        have again : x ∈ y :: rest := List.mem_of_getLast? last
        have apart := (List.nodup_append.mp distinct).2.1
        exact absurd again (List.nodup_cons.mp apart).1
  · rintro rfl
    rw [List.getLast?_append_cons]
    rfl

theorem head?_eq_some_self (distinct : (rest ++ x :: back).Nodup) :
    (rest ++ x :: back).head? = some x ↔ rest = [] := by
  constructor
  · intro first
    cases rest with
    | nil => rfl
    | cons y rest =>
        rw [List.cons_append, List.head?_cons, Option.some.injEq] at first
        subst first
        rw [List.cons_append, List.nodup_cons] at distinct
        exact absurd (List.mem_append_right rest List.mem_cons_self) distinct.1
  · rintro rfl
    rfl

end Siblings

/-! ## Putting a node into a list -/

section Splice

variable {nodes : Ref → Option Node} {shape : Shape Ref Content} {p c : Ref}
  {before after : List Ref}

/-- The pointers of a node when `c` was put between the children of `p`. -/
def splicedNode (p c : Ref) (before after : List Ref) (i : Ref) (node : Node) : Node :=
  { node with
    next := if i = c then after.head? else if before.getLast? = some i then some c else node.next
    prev := if i = c then before.getLast? else if after.head? = some i then some c else node.prev
    parent := if i = c then some p else node.parent
    firstChild := if i = p ∧ before = [] then some c else node.firstChild
    lastChild := if i = p ∧ after = [] then some c else node.lastChild }

/-- The pointers when `c` was put between the children of `p`. -/
def spliced (nodes : Ref → Option Node) (p c : Ref) (before after : List Ref) :
    Ref → Option Node := fun i => (nodes i).map (splicedNode p c before after i)

section Node

variable {i : Ref} {node : Node}

theorem splicedNode_self : (splicedNode p c before after c node).parent = some p ∧
    (splicedNode p c before after c node).prev = before.getLast? ∧
    (splicedNode p c before after c node).next = after.head? :=
  ⟨if_pos rfl, if_pos rfl, if_pos rfl⟩

theorem splicedNode_parent (other : i ≠ c) :
    (splicedNode p c before after i node).parent = node.parent := if_neg other

theorem splicedNode_prev (other : i ≠ c) : (splicedNode p c before after i node).prev =
    if after.head? = some i then some c else node.prev := if_neg other

theorem splicedNode_next (other : i ≠ c) : (splicedNode p c before after i node).next =
    if before.getLast? = some i then some c else node.next := if_neg other

/-- Elsewhere the pointers stay. -/
theorem splicedNode_of_not_mem (other : i ≠ c) (notBefore : i ∉ before) (notAfter : i ∉ after) :
    (splicedNode p c before after i node).parent = node.parent ∧
    (splicedNode p c before after i node).prev = node.prev ∧
    (splicedNode p c before after i node).next = node.next := by
  have notFirst : after.head? ≠ some i := fun first => notAfter (List.mem_of_mem_head? first)
  have notLast : before.getLast? ≠ some i := fun last => notBefore (List.mem_of_getLast? last)
  refine ⟨splicedNode_parent other, ?_, ?_⟩
  · rw [splicedNode_prev other, if_neg notFirst]
  · rw [splicedNode_next other, if_neg notLast]

end Node

/-- The siblings of the new child, and the new child itself. -/
theorem Linked.placed_spliced (linked : Linked (some c) nodes shape)
    (kids : shape.kids p = before ++ after) (child : ∃ node, nodes c = some node)
    (notBefore : c ∉ before) (notAfter : c ∉ after) {front back : List Ref} {x : Ref}
    (split : before ++ c :: after = front ++ x :: back) :
    ∃ node, spliced nodes p c before after x = some node ∧
      node.parent = some p ∧ node.prev = front.getLast? ∧ node.next = back.head? := by
  have distinct := linked.nodup p
  rw [kids] at distinct
  rcases append_cons_eq_append_cons_cases split with
    ⟨rest, rfl, rfl⟩ | ⟨rfl, rfl, rfl⟩ | ⟨rest, rfl, rfl⟩
  · -- A sibling before the new one: only the last of them has another successor.
    have notNew : x ≠ c := fun same => notBefore (by simp [same])
    obtain ⟨old, held, up, left, right⟩ := linked.placed p front x (rest ++ after)
      (by rw [kids, List.append_assoc, List.cons_append])
    have isLast := getLast?_eq_some_self (List.nodup_append.mp distinct).1
    have notFirst : after.head? ≠ some x := fun first => by
      have again := List.mem_of_mem_head? first
      exact (List.nodup_append.mp distinct).2.2 x (by simp) x again rfl
    refine ⟨_, congrArg (Option.map _) held, ?_, ?_, ?_⟩
    · rw [splicedNode_parent notNew, up]
    · rw [splicedNode_prev notNew, if_neg notFirst, left]
    · rw [splicedNode_next notNew]
      cases rest with
      | nil => rw [if_pos (isLast.mpr rfl)]; rfl
      | cons y rest =>
          rw [if_neg fun last => List.cons_ne_nil _ _ (isLast.mp last), right]
          rfl
  · obtain ⟨old, held⟩ := child
    exact ⟨_, congrArg (Option.map _) held, splicedNode_self⟩
  · -- A sibling after the new one: only the first of them has another predecessor.
    have notNew : x ≠ c := fun same => notAfter (by simp [same])
    obtain ⟨old, held, up, left, right⟩ := linked.placed p (before ++ rest) x back
      (by rw [kids, List.append_assoc])
    have isFirst := head?_eq_some_self (List.nodup_append.mp distinct).2.1
    have notLast : before.getLast? ≠ some x := fun last => by
      have again := List.mem_of_getLast? last
      exact (List.nodup_append.mp distinct).2.2 x again x (by simp) rfl
    refine ⟨_, congrArg (Option.map _) held, ?_, ?_, ?_⟩
    · rw [splicedNode_parent notNew, up]
    · rw [splicedNode_prev notNew]
      cases rest with
      | nil => rw [if_pos (isFirst.mpr rfl), List.getLast?_append]; rfl
      | cons y rest =>
          rw [if_neg fun first => List.cons_ne_nil _ _ (isFirst.mp first), left]
          simp [List.getLast?_append, List.getLast?_cons]
    · rw [splicedNode_next notNew, if_neg notLast, right]

/-- No node is above itself when a node is put below one that is not below it. -/
theorem acyclic_splice (acyclic : ∃ depth : Ref → ℕ, ∀ q, ∀ x ∈ shape.kids q, depth q < depth x)
    (kids : shape.kids p = before ++ after) (apart : ¬ shape.Below c p) :
    ∃ depth : Ref → ℕ, ∀ q, ∀ x ∈ (shape.setKids p (before ++ c :: after)).kids q,
      depth q < depth x := by
  -- What is below the new child is moved below `p`.
  classical
  obtain ⟨depth, deeper⟩ := acyclic
  let moved (i : Ref) : ℕ := if shape.Below c i then depth i + depth p + 1 else depth i
  have old {q x : Ref} (inList : x ∈ shape.kids q) : moved q < moved x := by
    have less := deeper q x inList
    by_cases below : shape.Below c q
    · have belowToo : shape.Below c x := Relation.ReflTransGen.tail below inList
      simp only [moved, if_pos below, if_pos belowToo]
      omega
    · simp only [moved, if_neg below]
      split_ifs <;> omega
  refine ⟨moved, fun q x inList => ?_⟩
  rw [Shape.kids_setKids] at inList
  split_ifs at inList with here
  · subst here
    rw [List.mem_append, List.mem_cons] at inList
    rcases inList with sibling | rfl | sibling
    · exact old (by rw [kids]; exact List.mem_append_left _ sibling)
    · have belowSelf : shape.Below x x := .refl
      simp only [moved, if_neg apart, if_pos belowSelf]
      omega
    · exact old (by rw [kids]; exact List.mem_append_right _ sibling)
  · exact old inList

/-- **A node in limbo is put into a list.** -/
theorem Linked.splice (linked : Linked (some c) nodes shape)
    (kids : shape.kids p = before ++ after) (parent : ∃ node, nodes p = some node)
    (child : ∃ node, nodes c = some node) (loose : ∀ q, c ∉ shape.kids q)
    (apart : ¬ shape.Below c p) :
    Linked none (spliced nodes p c before after)
      (shape.setKids p (before ++ c :: after)) := by
  have member {i : Ref} : i ∈ before ++ after ↔ i ∈ shape.kids p := by rw [kids]
  have notBefore : c ∉ before := fun inList =>
    loose p (member.mp (List.mem_append_left after inList))
  have notAfter : c ∉ after := fun inList =>
    loose p (member.mp (List.mem_append_right before inList))
  constructor
  · intro n
    rw [Shape.label_setKids, linked.label, spliced, Option.map_map]
    rfl
  · intro n node held
    obtain ⟨old, heldOld, rfl⟩ := Option.map_eq_some_iff.mp held
    obtain ⟨first, last⟩ := linked.ends n old heldOld
    rw [Shape.kids_setKids]
    by_cases here : n = p
    · subst here
      rw [kids] at first last
      simp only [splicedNode, true_and, if_true]
      constructor
      · cases before with
        | nil => rfl
        | cons b before => simpa using first
      · cases after with
        | nil => simp
        | cons a after => simpa using last
    · simp only [splicedNode, here, false_and, if_false]
      exact ⟨first, last⟩
  · intro q front x back split
    rw [Shape.kids_setKids] at split
    split_ifs at split with here
    · exact here ▸ linked.placed_spliced kids child notBefore notAfter split
    · obtain ⟨old, held, up, left, right⟩ := linked.placed q front x back split
      have inList : x ∈ shape.kids q := by simp [split]
      have notNew : x ≠ c := fun same => loose q (same ▸ inList)
      have notSibling : x ∉ before ++ after := fun sibling =>
        here (linked.parent_unique inList (member.mp sibling))
      rw [List.mem_append, not_or] at notSibling
      obtain ⟨sameUp, sameLeft, sameRight⟩ := @splicedNode_of_not_mem p c before after x old notNew
        notSibling.1 notSibling.2
      exact ⟨_, congrArg (Option.map _) held, sameUp.trans up, sameLeft.trans left,
        sameRight.trans right⟩
  · intro i node held _ nowhere
    obtain ⟨old, heldOld, rfl⟩ := Option.map_eq_some_iff.mp held
    have notSibling := nowhere p
    rw [Shape.kids_setKids, if_pos rfl, List.mem_append, List.mem_cons, not_or, not_or]
      at notSibling
    obtain ⟨notBefore, notNew, notAfter⟩ := notSibling
    obtain ⟨up, left, right⟩ := linked.loose i old heldOld (by simpa using notNew) fun q inList => by
      have later := nowhere q
      rw [Shape.kids_setKids] at later
      split_ifs at later with here
      · subst here
        rw [← member, List.mem_append] at inList
        exact inList.elim notBefore notAfter
      · exact later inList
    obtain ⟨sameUp, sameLeft, sameRight⟩ := @splicedNode_of_not_mem p c before after i old notNew
      notBefore notAfter
    exact ⟨sameUp.trans up, sameLeft.trans left, sameRight.trans right⟩
  · intro n gone
    rw [spliced, Option.map_eq_none_iff] at gone
    rw [Shape.kids_setKids, if_neg, linked.dead n gone]
    rintro rfl
    obtain ⟨node, held⟩ := parent
    rw [held] at gone
    cases gone
  · intro n
    rw [Shape.kids_setKids]
    split_ifs
    · rw [List.nodup_middle, ← kids]
      exact List.nodup_cons.mpr ⟨loose p, linked.nodup p⟩
    · exact linked.nodup n
  · exact acyclic_splice linked.acyclic kids apart

end Splice

/-! ## Taking a node out of a list -/

section Unsplice

variable {nodes : Ref → Option Node} {shape : Shape Ref Content} {p c : Ref}
  {before after : List Ref}

/-- The pointers of a node when one between these children of `p` was taken out. -/
def unsplicedNode (p : Ref) (before after : List Ref) (i : Ref) (node : Node) : Node :=
  { node with
    next := if before.getLast? = some i then after.head? else node.next
    prev := if after.head? = some i then before.getLast? else node.prev
    firstChild := if i = p ∧ before = [] then after.head? else node.firstChild
    lastChild := if i = p ∧ after = [] then before.getLast? else node.lastChild }

/-- The pointers when a node was taken out of the children of `p`. -/
def unspliced (nodes : Ref → Option Node) (p : Ref) (before after : List Ref) :
    Ref → Option Node := fun i => (nodes i).map (unsplicedNode p before after i)

/-- Elsewhere the pointers stay. -/
theorem unsplicedNode_of_not_mem {i : Ref} {node : Node} (notBefore : i ∉ before)
    (notAfter : i ∉ after) :
    (unsplicedNode p before after i node).parent = node.parent ∧
    (unsplicedNode p before after i node).prev = node.prev ∧
    (unsplicedNode p before after i node).next = node.next := by
  have notFirst : after.head? ≠ some i := fun first => notAfter (List.mem_of_mem_head? first)
  have notLast : before.getLast? ≠ some i := fun last => notBefore (List.mem_of_getLast? last)
  exact ⟨rfl, if_neg notFirst, if_neg notLast⟩

/-- The former siblings. -/
theorem Linked.placed_unspliced (linked : Linked none nodes shape)
    (kids : shape.kids p = before ++ c :: after) {front back : List Ref} {x : Ref}
    (split : before ++ after = front ++ x :: back) :
    ∃ node, unspliced nodes p before after x = some node ∧
      node.parent = some p ∧ node.prev = front.getLast? ∧ node.next = back.head? := by
  have distinct := linked.nodup p
  rw [kids, List.nodup_middle] at distinct
  have distinctNow := (List.nodup_cons.mp distinct).2
  rcases append_eq_append_cons_cases split with ⟨rest, rfl, rfl⟩ | ⟨rest, rfl, rfl⟩
  · -- A sibling before it: only the last of them gets another successor.
    obtain ⟨old, held, up, left, right⟩ := linked.placed p front x (rest ++ c :: after)
      (by rw [kids, List.append_assoc, List.cons_append])
    have isLast := getLast?_eq_some_self (List.nodup_append.mp distinctNow).1
    have notFirst : after.head? ≠ some x := fun first => by
      have again := List.mem_of_mem_head? first
      exact (List.nodup_append.mp distinctNow).2.2 x (by simp) x again rfl
    refine ⟨_, congrArg (Option.map _) held, up, (if_neg notFirst).trans left, ?_⟩
    cases rest with
    | nil => exact if_pos (isLast.mpr rfl)
    | cons y rest =>
        exact (if_neg fun last => List.cons_ne_nil _ _ (isLast.mp last)).trans right
  · -- A sibling after it: only the first of them gets another predecessor.
    obtain ⟨old, held, up, left, right⟩ := linked.placed p (before ++ c :: rest) x back
      (by rw [kids, List.append_assoc, List.cons_append])
    have isFirst := head?_eq_some_self (List.nodup_append.mp distinctNow).2.1
    have notLast : before.getLast? ≠ some x := fun last => by
      have again := List.mem_of_getLast? last
      exact (List.nodup_append.mp distinctNow).2.2 x again x (by simp) rfl
    refine ⟨_, congrArg (Option.map _) held, up, ?_, (if_neg notLast).trans right⟩
    cases rest with
    | nil => exact (if_pos (isFirst.mpr rfl)).trans (by rw [List.append_nil])
    | cons y rest =>
        refine (if_neg fun first => List.cons_ne_nil _ _ (isFirst.mp first)).trans (left.trans ?_)
        simp [List.getLast?_append, List.getLast?_cons]

/-- A node that was taken out is nobody's child. -/
theorem Linked.not_mem_kids_unsplice (linked : Linked none nodes shape)
    (kids : shape.kids p = before ++ c :: after) (q : Ref) :
    c ∉ (shape.setKids p (before ++ after)).kids q := by
  have distinct := linked.nodup p
  rw [kids, List.nodup_middle] at distinct
  rw [Shape.kids_setKids]
  split_ifs with here
  · exact (List.nodup_cons.mp distinct).1
  · exact fun inList => here (linked.parent_unique inList (by simp [kids]))

/-- **A node is taken out of a list**, and is in limbo. -/
theorem Linked.unsplice (linked : Linked none nodes shape)
    (kids : shape.kids p = before ++ c :: after) :
    Linked (some c) (unspliced nodes p before after)
      (shape.setKids p (before ++ after)) := by
  have member {i : Ref} (sibling : i ∈ before ++ after) : i ∈ shape.kids p := by
    rw [kids, List.mem_append, List.mem_cons]
    exact (List.mem_append.mp sibling).imp_right .inr
  constructor
  · intro n
    rw [Shape.label_setKids, linked.label, unspliced, Option.map_map]
    rfl
  · intro n node held
    obtain ⟨old, heldOld, rfl⟩ := Option.map_eq_some_iff.mp held
    obtain ⟨first, last⟩ := linked.ends n old heldOld
    rw [Shape.kids_setKids]
    by_cases here : n = p
    · subst here
      rw [kids] at first last
      simp only [unsplicedNode, true_and, if_true]
      constructor
      · cases before with
        | nil => rfl
        | cons b before => simpa using first
      · cases after with
        | nil => simp
        | cons a after =>
            rw [List.getLast?_append_cons, List.getLast?_cons_cons] at last
            rw [List.getLast?_append_cons, if_neg (List.cons_ne_nil _ _)]
            exact last
    · simp only [unsplicedNode, here, false_and, if_false]
      exact ⟨first, last⟩
  · intro q front x back split
    rw [Shape.kids_setKids] at split
    split_ifs at split with here
    · exact here ▸ linked.placed_unspliced kids split
    · obtain ⟨old, held, up, left, right⟩ := linked.placed q front x back split
      have inList : x ∈ shape.kids q := by simp [split]
      have notSibling : x ∉ before ++ after := fun sibling =>
        here (linked.parent_unique inList (member sibling))
      rw [List.mem_append, not_or] at notSibling
      obtain ⟨sameUp, sameLeft, sameRight⟩ := @unsplicedNode_of_not_mem p before after x old
        notSibling.1 notSibling.2
      exact ⟨_, congrArg (Option.map _) held, sameUp.trans up, sameLeft.trans left,
        sameRight.trans right⟩
  · intro i node held notLimbo nowhere
    obtain ⟨old, heldOld, rfl⟩ := Option.map_eq_some_iff.mp held
    have notSibling := nowhere p
    rw [Shape.kids_setKids, if_pos rfl, List.mem_append, not_or] at notSibling
    obtain ⟨notBefore, notAfter⟩ := notSibling
    have other : i ≠ c := fun same => notLimbo (congrArg some same)
    obtain ⟨up, left, right⟩ := linked.loose i old heldOld (by simp) fun q inList => by
      have later := nowhere q
      rw [Shape.kids_setKids] at later
      split_ifs at later with here
      · subst here
        rw [kids, List.mem_append, List.mem_cons] at inList
        exact inList.elim notBefore fun others => others.elim other notAfter
      · exact later inList
    obtain ⟨sameUp, sameLeft, sameRight⟩ := @unsplicedNode_of_not_mem p before after i old
      notBefore notAfter
    exact ⟨sameUp.trans up, sameLeft.trans left, sameRight.trans right⟩
  · intro n gone
    rw [unspliced, Option.map_eq_none_iff] at gone
    have none := linked.dead n gone
    rw [Shape.kids_setKids, if_neg, none]
    rintro rfl
    rw [kids] at none
    exact List.append_ne_nil_of_right_ne_nil _ (List.cons_ne_nil _ _) none
  · intro n
    rw [Shape.kids_setKids]
    split_ifs
    · have distinct := linked.nodup p
      rw [kids, List.nodup_middle] at distinct
      exact (List.nodup_cons.mp distinct).2
    · exact linked.nodup n
  · obtain ⟨depth, deeper⟩ := linked.acyclic
    refine ⟨depth, fun q x inList => ?_⟩
    rw [Shape.kids_setKids] at inList
    split_ifs at inList with here
    · subst here
      exact deeper _ _ (member inList)
    · exact deeper _ _ inList

end Unsplice

end HashArchive.Cmark
