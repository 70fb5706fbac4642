import HashArchive.Deps.CmarkLinks

/-!
# What the functions on nodes do

Each function of `node.c` and of `iterator.c` is described by what it does to the shape of the
document, with the memory behind it: if the memory holds a shape (`Stored`), the function
ends, and the memory it leaves holds the changed shape. Above this module no pointer is
looked at.

`S_can_contain` looks for the child above the node. It ends because no node is above itself,
and finds nothing when the node is not below the child.
-/

set_option autoImplicit false

namespace HashArchive.Cmark

open Program

/-- **The memory holds a shape**, with new nodes from `k` on and the iterator where it is. -/
structure Stored (m : Memory) (shape : Shape Ref Content) (k : Ref) (iter : Iter) : Prop where
  linked : Linked none m.nodes shape
  unused : ∀ n, k ≤ n → m.nodes n = none
  fresh : m.fresh = k
  iter : m.iter = iter

/-! ## Reading and changing a node -/

/-- One node is changed, if there is one. -/
def Memory.adjustAt (m : Memory) (p : Option Ref) (f : Node → Node) : Memory :=
  { m with nodes := fun i => (m.nodes i).map fun node => if p = some i then f node else node }

/-- A node is there. -/
def Memory.Has (m : Memory) (n : Ref) : Prop := ∃ node, m.nodes n = some node

section Steps

variable {m : Memory} {n i : Ref} {node : Node} {p : Option Ref} {f : Node → Node}

theorem Memory.Has.adjustAt (has : m.Has i) : (m.adjustAt p f).Has i := by
  obtain ⟨node, held⟩ := has
  exact ⟨_, congrArg (Option.map _) held⟩

theorem adjust_eq (m : Memory) (n : Ref) (f : Node → Node) :
    m.adjust n f = m.adjustAt (some n) f := by
  unfold Memory.adjust Memory.adjustAt
  congr 1
  funext i
  by_cases here : i = n
  · subst here
    simp
  · simp [here, Ne.symm here]

theorem load_ends {post : Node → Memory → Prop} (held : m.nodes n = some node)
    (holds : post node m) : (load n).Ends m post := by
  refine Ends.step ?_ holds
  rw [held]

theorem change_ends {post : Unit → Memory → Prop} (has : m.Has n)
    (holds : post () (m.adjustAt (some n) f)) : (change n f).Ends m post := by
  obtain ⟨node, held⟩ := has
  rw [← adjust_eq] at holds
  refine Ends.step ?_ holds
  rw [held]

theorem ifSome_change_ends {post : Unit → Memory → Prop} (has : ∀ n, p = some n → m.Has n)
    (holds : post () (m.adjustAt p f)) : (ifSome p fun n => change n f).Ends m post := by
  cases p with
  | some n => exact change_ends (has n rfl) holds
  | none =>
      refine Ends.pure ?_
      have same : m.adjustAt none f = m := by simp [Memory.adjustAt]
      rwa [same] at holds

theorem unlessSome_change_ends {post : Unit → Memory → Prop} (has : m.Has n)
    (holds : post () (m.adjustAt (if p = none then some n else none) f)) :
    (unlessSome p (change n f)).Ends m post := by
  cases p with
  | none => exact change_ends has holds
  | some q =>
      refine Ends.pure ?_
      have same : m.adjustAt none f = m := by simp [Memory.adjustAt]
      rwa [if_neg (Option.some_ne_none q), same] at holds

end Steps

/-! ## What a stored shape says -/

section Stored

variable {m : Memory} {shape : Shape Ref Content} {k : Ref} {iter : Iter} {n c p : Ref}
  {content : Content}

/-- A node with a label is there. -/
theorem Stored.exists_of_label (stored : Stored m shape k iter)
    (label : shape.label n = some content) : ∃ node, m.nodes n = some node ∧
      node.content = content := by
  rw [stored.linked.label] at label
  obtain ⟨node, held, same⟩ := Option.map_eq_some_iff.mp label
  exact ⟨node, held, same⟩

theorem Stored.has (stored : Stored m shape k iter) (label : shape.label n = some content) :
    m.Has n := by
  obtain ⟨node, held, -⟩ := stored.exists_of_label label
  exact ⟨node, held⟩

/-- The pointers are all that matters. -/
theorem Stored.of_nodes {nodes : Ref → Option Node}
    (stored : Stored { m with nodes := nodes } shape k iter) {m' : Memory}
    (same : ∀ i, m'.nodes i = nodes i) (fresh : m'.fresh = m.fresh) (sameIter : m'.iter = m.iter) :
    Stored m' shape k iter := by
  have pointers : m'.nodes = nodes := funext same
  exact ⟨pointers ▸ stored.linked, fun n new => (same n).trans (stored.unused n new),
    fresh.trans stored.fresh, sameIter.trans stored.iter⟩

/-- New nodes are not there yet. -/
theorem Stored.label_eq_none (stored : Stored m shape k iter) (new : k ≤ n) :
    shape.label n = none := by
  rw [stored.linked.label, stored.unused n new]
  rfl

theorem Stored.lt_of_label (stored : Stored m shape k iter)
    (label : shape.label n = some content) : n < k := by
  by_contra new
  rw [stored.label_eq_none (Nat.le_of_not_lt new)] at label
  cases label

theorem Stored.lt_of_spans (stored : Stored m shape k iter) {forest : Forest Ref Content}
    (spans : Forest.Spans shape forest) (member : n ∈ forest.ids) : n < k := by
  obtain ⟨⟨_, content⟩, inNodes, rfl⟩ := List.mem_map.mp member
  exact stored.lt_of_label (spans.label_of_mem inNodes)

theorem Stored.kids_eq_nil (stored : Stored m shape k iter) (gone : shape.label n = none) :
    shape.kids n = [] := by
  rw [stored.linked.label, Option.map_eq_none_iff] at gone
  exact stored.linked.dead n gone

/-- Children are there. -/
theorem Stored.label_of_mem (stored : Stored m shape k iter) (child : c ∈ shape.kids p) :
    ∃ content, shape.label c = some content := by
  obtain ⟨node, held, -⟩ := stored.linked.parent_of_mem child
  exact ⟨node.content, by rw [stored.linked.label, held]; rfl⟩

/-- A node that is not there is no child. -/
theorem Stored.not_mem_kids (stored : Stored m shape k iter) (gone : shape.label c = none)
    (p : Ref) : c ∉ shape.kids p := by
  intro child
  obtain ⟨content, label⟩ := stored.label_of_mem child
  rw [gone] at label
  cases label

end Stored

/-! ## Unlinking -/

section Unlink

variable {m : Memory} {shape : Shape Ref Content} {p c : Ref} {before after : List Ref}

/-- A node among its siblings is unlinked. -/
theorem sNodeUnlink_placed (linked : Linked none m.nodes shape)
    (kids : shape.kids p = before ++ c :: after) : (sNodeUnlink c).Ends m fun _ m' =>
      m' = { m with nodes := unspliced m.nodes p before after } := by
  have member {i : Ref} (sibling : i ∈ before ++ c :: after) : i ∈ shape.kids p := by
    rw [kids]
    exact sibling
  have sibling {i : Ref} (inList : i ∈ before ++ c :: after) : m.Has i :=
    linked.exists_child_of_mem (member inList)
  have parent : m.Has p := linked.exists_of_mem (member (List.mem_append_right _ List.mem_cons_self))
  have inBefore {i : Ref} (last : before.getLast? = some i) : i ∈ before ++ c :: after :=
    List.mem_append_left _ (List.mem_of_getLast? last)
  have inAfter {i : Ref} (first : after.head? = some i) : i ∈ before ++ c :: after :=
    List.mem_append_right _ (List.mem_cons_of_mem _ (List.mem_of_mem_head? first))
  obtain ⟨self, held, up, left, right⟩ := linked.placed p before c after kids
  apply Ends.bind
  apply load_ends held
  rw [up, left, right]
  apply Ends.bind
  apply ifSome_change_ends fun n last => sibling (inBefore last)
  apply Ends.bind
  apply ifSome_change_ends fun n first => (sibling (inAfter first)).adjustAt
  apply ifSome_change_ends
  · rintro n ⟨⟩
    exact parent.adjustAt.adjustAt
  simp only [Memory.adjustAt, Option.map_map]
  congr 1
  funext i
  refine Option.map_congr fun node held => ?_
  by_cases here : i = p
  · subst here
    have notLast : before.getLast? ≠ some i := fun last =>
      linked.ne_of_mem (member (inBefore last)) rfl
    have notFirst : after.head? ≠ some i := fun first =>
      linked.ne_of_mem (member (inAfter first)) rfl
    obtain ⟨firstChild, lastChild⟩ := linked.ends i node held
    have distinct := linked.nodup i
    rw [kids] at firstChild lastChild distinct
    simp only [Function.comp, unsplicedNode, notLast, notFirst, if_false, if_true, true_and,
      firstChild, lastChild, head?_eq_some_self distinct, getLast?_eq_some_self distinct]
  · have other : some p ≠ some i := fun same => here (Option.some.inj same).symm
    simp only [Function.comp, unsplicedNode, other, here, if_false, false_and]
    split_ifs <;> rfl

/-- A node without siblings and parent is unlinked already. -/
theorem sNodeUnlink_loose (linked : Linked none m.nodes shape) (has : m.Has c)
    (loose : ∀ q, c ∉ shape.kids q) : (sNodeUnlink c).Ends m fun _ m' => m' = m := by
  obtain ⟨self, held⟩ := has
  obtain ⟨up, left, right⟩ := linked.loose c self held (Option.some_ne_none c) loose
  apply Ends.bind
  apply load_ends held
  rw [up, left, right]
  apply Ends.bind
  apply Ends.pure
  apply Ends.bind
  apply Ends.pure
  exact Ends.pure rfl

/-- A node that nothing points to may be in limbo. -/
theorem Linked.limbo (linked : Linked none m.nodes shape) (limbo : Option Ref) :
    Linked limbo m.nodes shape :=
  { linked with loose := fun c node held _ => linked.loose c node held (Option.some_ne_none c) }

end Unlink

/-! ## Who may contain whom -/

section Contain

variable {m : Memory} {shape : Shape Ref Content} {k : Ref} {iter : Iter} {n c : Ref}

theorem notAbove_ends (linked : Linked none m.nodes shape) (has : m.Has n)
    (apart : ¬ shape.Below c n) : (notAbove c n).Ends m fun found m' => found = true ∧ m' = m := by
  obtain ⟨depth, deeper⟩ := linked.acyclic
  induction length : depth n using Nat.strong_induction_on generalizing n with
  | _ depthN ih =>
      subst length
      obtain ⟨self, held⟩ := has
      have other : n ≠ c := by
        rintro rfl
        exact apart .refl
      apply Ends.loop
      rw [if_neg other]
      apply Ends.bind
      apply load_ends held
      cases up : self.parent with
      | none => exact Ends.pure ⟨rfl, rfl⟩
      | some p =>
          apply Ends.pure
          have child : n ∈ shape.kids p := by
            by_contra notChild
            have nowhere : ∀ q, n ∉ shape.kids q := by
              intro q inList
              obtain ⟨node, held', up'⟩ := linked.parent_of_mem inList
              cases held.symm.trans held'
              cases up.symm.trans up'
              exact notChild inList
            obtain ⟨none, -⟩ := linked.loose n self held (Option.some_ne_none n) nowhere
            rw [up] at none
            cases none
          exact ih (depth p) (deeper p n child) (linked.exists_of_mem child)
            (fun below => apart (Relation.ReflTransGen.tail below child)) rfl

/-- **`S_can_contain`** for a child that the node is not below. -/
theorem sCanContain_ends (stored : Stored m shape k iter) {outer inner : Content}
    (node : shape.label n = some outer) (child : shape.label c = some inner)
    (apart : ¬ shape.Below c n) : (sCanContain n c).Ends m fun can m' =>
      can = mayContain outer.type inner.type ∧ m' = m := by
  obtain ⟨nodeHeld, held, rfl⟩ := stored.exists_of_label node
  obtain ⟨childHeld, held', rfl⟩ := stored.exists_of_label child
  apply Ends.bind
  refine (notAbove_ends stored.linked ⟨_, held⟩ apart).mono ?_
  rintro _ _ ⟨rfl, rfl⟩
  apply Ends.bind
  apply load_ends held'
  apply Ends.bind
  apply load_ends held
  exact Ends.pure ⟨rfl, rfl⟩

end Contain

/-! ## Linking -/

section Link

variable {m : Memory} {shape : Shape Ref Content} {k : Ref} {iter : Iter} {p n c : Ref}
  {before after : List Ref} {above inner : Content}

/-- What the shape has to say so that a new child can be put between the children of `p`. -/
structure Insertable (shape : Shape Ref Content) (p c : Ref) (siblings : List Ref)
    (above inner : Content) : Prop where
  kids : shape.kids p = siblings
  parent : shape.label p = some above
  child : shape.label c = some inner
  loose : ∀ q, c ∉ shape.kids q
  apart : ¬ shape.Below c p
  allowed : mayContain above.type inner.type = true

theorem Insertable.splice (insertable : Insertable shape p c (before ++ after) above inner)
    (stored : Stored m shape k iter) :
    Stored { m with nodes := spliced m.nodes p c before after }
      (shape.setKids p (before ++ c :: after)) k iter where
  linked := (stored.linked.limbo (some c)).splice insertable.kids (stored.has insertable.parent)
    (stored.has insertable.child) insertable.loose insertable.apart
  unused i new := congrArg (Option.map _) (stored.unused i new)
  fresh := stored.fresh
  iter := stored.iter

theorem Insertable.ne_parent {siblings : List Ref}
    (insertable : Insertable shape p c siblings above inner) : c ≠ p := by
  rintro rfl
  exact insertable.apart .refl

theorem Insertable.ne_of_mem {siblings : List Ref} {i : Ref}
    (insertable : Insertable shape p c siblings above inner) (child : i ∈ shape.kids p) :
    i ≠ c := by
  rintro rfl
  exact insertable.loose p child

/-- `S_can_contain` and `S_node_unlink` change nothing for a child that is loose. -/
theorem Insertable.prepare (insertable : Insertable shape p c (before ++ after) above inner)
    (stored : Stored m shape k iter) {post : Bool → Memory → Prop} {rest : Program Memory Bool}
    (holds : rest.Ends m post) :
    (sCanContain p c >>= fun can =>
      if can = true then sNodeUnlink c >>= fun _ => rest else pure false).Ends m post := by
  apply Ends.bind
  refine (sCanContain_ends stored insertable.parent insertable.child insertable.apart).mono ?_
  rintro _ _ ⟨rfl, rfl⟩
  rw [if_pos insertable.allowed]
  apply Ends.bind
  refine (sNodeUnlink_loose stored.linked (stored.has insertable.child) insertable.loose).mono ?_
  rintro _ _ rfl
  exact holds

/-- **A loose node is put before another.** -/
theorem cmarkNodeInsertBefore_ends (stored : Stored m shape k iter)
    (insertable : Insertable shape p c (before ++ n :: after) above inner) :
    (cmarkNodeInsertBefore n c).Ends m fun done m' =>
      done = true ∧ Stored m' (shape.setKids p (before ++ c :: n :: after)) k iter := by
  have linked := stored.linked
  have kids := insertable.kids
  have member {i : Ref} (sibling : i ∈ before ++ n :: after) : i ∈ shape.kids p := by
    rw [kids]
    exact sibling
  have memberBefore {i : Ref} (last : before.getLast? = some i) : i ∈ shape.kids p :=
    member (List.mem_append_left _ (List.mem_of_getLast? last))
  have memberSelf : n ∈ shape.kids p := member (List.mem_append_right _ List.mem_cons_self)
  obtain ⟨self, held, up, left, -⟩ := linked.placed p before n after kids
  have hasLast (q : Ref) (last : before.getLast? = some q) : m.Has q :=
    linked.exists_child_of_mem (memberBefore last)
  have has : m.Has n := ⟨self, held⟩
  have hasNew := stored.has insertable.child
  apply Ends.bind
  apply load_ends held
  rw [up]
  apply insertable.prepare stored
  apply Ends.bind
  apply load_ends held
  rw [left]
  apply Ends.bind
  apply ifSome_change_ends hasLast
  apply Ends.bind
  apply change_ends hasNew.adjustAt
  apply Ends.bind
  apply change_ends has.adjustAt.adjustAt
  apply Ends.bind
  apply change_ends hasNew.adjustAt.adjustAt.adjustAt
  apply Ends.bind
  apply unlessSome_change_ends (stored.has insertable.parent).adjustAt.adjustAt.adjustAt.adjustAt
  refine Ends.pure ⟨rfl, (insertable.splice stored).of_nodes (fun i => ?_) rfl rfl⟩
  simp only [Memory.adjustAt, Option.map_map, spliced]
  refine Option.map_congr fun node _ => ?_
  have newNotParent : c ≠ p := insertable.ne_parent
  have newNotLast : before.getLast? ≠ some c := fun last =>
    insertable.ne_of_mem (memberBefore last) rfl
  have newNotNode : c ≠ n := (insertable.ne_of_mem memberSelf).symm
  have nodeNotParent : n ≠ p := linked.ne_of_mem memberSelf
  have nodeNotLast : before.getLast? ≠ some n := fun last => by
    have distinct := linked.nodup p
    rw [kids, List.nodup_append] at distinct
    exact distinct.2.2 n (List.mem_of_getLast? last) n List.mem_cons_self rfl
  have lastNotParent : before.getLast? ≠ some p := fun last =>
    linked.ne_of_mem (memberBefore last) rfl
  simp only [Function.comp, splicedNode, Option.some.injEq, List.head?_cons,
    List.getLast?_eq_none_iff, @eq_comm _ c i, @eq_comm _ n i]
  by_cases new : i = c
  · subst new
    simp [newNotParent, newNotParent.symm, newNotNode, newNotLast]
  · by_cases inner : i = n
    · subst inner
      simp [new, nodeNotParent, nodeNotParent.symm, nodeNotLast]
    · by_cases parent : i = p
      · subst parent
        simp [new, inner, lastNotParent]
        split_ifs <;> rfl
      · simp [new, inner, parent, Ne.symm parent]
        split_ifs <;> rfl

/-- **A loose node is put after another.** -/
theorem cmarkNodeInsertAfter_ends (stored : Stored m shape k iter)
    (insertable : Insertable shape p c (before ++ n :: after) above inner) :
    (cmarkNodeInsertAfter n c).Ends m fun done m' =>
      done = true ∧ Stored m' (shape.setKids p (before ++ n :: c :: after)) k iter := by
  have linked := stored.linked
  have kids := insertable.kids
  have member {i : Ref} (sibling : i ∈ before ++ n :: after) : i ∈ shape.kids p := by
    rw [kids]
    exact sibling
  have memberAfter {i : Ref} (first : after.head? = some i) : i ∈ shape.kids p :=
    member (List.mem_append_right _ (List.mem_cons_of_mem _ (List.mem_of_mem_head? first)))
  have memberSelf : n ∈ shape.kids p := member (List.mem_append_right _ List.mem_cons_self)
  obtain ⟨self, held, up, -, right⟩ := linked.placed p before n after kids
  have hasFirst (q : Ref) (first : after.head? = some q) : m.Has q :=
    linked.exists_child_of_mem (memberAfter first)
  have has : m.Has n := ⟨self, held⟩
  have hasNew := stored.has insertable.child
  have split : before ++ n :: after = (before ++ [n]) ++ after := by simp
  have insertable' : Insertable shape p c ((before ++ [n]) ++ after) above inner :=
    split ▸ insertable
  have done := insertable'.splice stored
  rw [List.append_assoc, List.singleton_append] at done
  apply Ends.bind
  apply load_ends held
  rw [up]
  apply insertable'.prepare stored
  apply Ends.bind
  apply load_ends held
  rw [right]
  apply Ends.bind
  apply ifSome_change_ends hasFirst
  apply Ends.bind
  apply change_ends hasNew.adjustAt
  apply Ends.bind
  apply change_ends has.adjustAt.adjustAt
  apply Ends.bind
  apply change_ends hasNew.adjustAt.adjustAt.adjustAt
  apply Ends.bind
  apply unlessSome_change_ends (stored.has insertable.parent).adjustAt.adjustAt.adjustAt.adjustAt
  refine Ends.pure ⟨rfl, done.of_nodes (fun i => ?_) rfl rfl⟩
  simp only [Memory.adjustAt, Option.map_map, spliced]
  refine Option.map_congr fun node _ => ?_
  have newNotParent : c ≠ p := insertable.ne_parent
  have newNotFirst : after.head? ≠ some c := fun first =>
    insertable.ne_of_mem (memberAfter first) rfl
  have newNotNode : c ≠ n := (insertable.ne_of_mem memberSelf).symm
  have nodeNotParent : n ≠ p := linked.ne_of_mem memberSelf
  have nodeNotFirst : after.head? ≠ some n := fun first => by
    have distinct := linked.nodup p
    rw [kids, List.nodup_append, List.nodup_cons] at distinct
    exact distinct.2.1.1 (List.mem_of_mem_head? first)
  have firstNotParent : after.head? ≠ some p := fun first =>
    linked.ne_of_mem (memberAfter first) rfl
  simp only [Function.comp, splicedNode, Option.some.injEq, List.getLast?_append_cons,
    List.getLast?_singleton, List.head?_eq_none_iff, @eq_comm _ c i, @eq_comm _ n i]
  by_cases new : i = c
  · subst new
    simp [newNotParent, newNotParent.symm, newNotNode, newNotFirst]
  · by_cases inner : i = n
    · subst inner
      simp [new, nodeNotParent, nodeNotParent.symm, nodeNotFirst]
    · by_cases parent : i = p
      · subst parent
        simp [new, inner, firstNotParent]
        split_ifs <;> rfl
      · simp [new, inner, parent, Ne.symm parent]
        split_ifs <;> rfl

/-- A node is unlinked and put after the children of another. -/
theorem cmarkNodeAppendChild_limbo {shape' : Shape Ref Content} {nodes' : Ref → Option Node}
    {siblings : List Ref} (stored : Stored m shape k iter)
    (parent : shape.label p = some above) (child : shape.label c = some inner)
    (apart : ¬ shape.Below c p) (allowed : mayContain above.type inner.type = true)
    (unlinks : (sNodeUnlink c).Ends m fun _ m' => m' = { m with nodes := nodes' })
    (linked : Linked (some c) nodes' shape') (unused : ∀ i, k ≤ i → nodes' i = none)
    (hasParent : ∃ node, nodes' p = some node) (hasChild : ∃ node, nodes' c = some node)
    (kids : shape'.kids p = siblings) (loose : ∀ q, c ∉ shape'.kids q)
    (apart' : ¬ shape'.Below c p) :
    (cmarkNodeAppendChild p c).Ends m fun done m' =>
      done = true ∧ Stored m' (shape'.setKids p (siblings ++ [c])) k iter := by
  have kids' : shape'.kids p = siblings ++ [] := by rw [kids, List.append_nil]
  have done : Stored { m with nodes := spliced nodes' p c siblings [] }
      (shape'.setKids p (siblings ++ [c])) k iter :=
    ⟨linked.splice kids' hasParent hasChild loose apart',
      fun i new => congrArg (Option.map _) (unused i new), stored.fresh, stored.iter⟩
  have newNotParent : c ≠ p := by
    rintro rfl
    exact apart .refl
  have memberLast {q : Ref} (last : siblings.getLast? = some q) : q ∈ shape'.kids p := by
    rw [kids]
    exact List.mem_of_getLast? last
  have newNotLast : siblings.getLast? ≠ some c := fun last => loose p (memberLast last)
  have lastNotParent : siblings.getLast? ≠ some p := fun last =>
    linked.ne_of_mem (memberLast last) rfl
  obtain ⟨self, held⟩ := hasParent
  obtain ⟨-, last⟩ := linked.ends p self held
  rw [kids] at last
  have hasLast (q : Ref) (last : siblings.getLast? = some q) :
      ({ m with nodes := nodes' } : Memory).Has q :=
    linked.exists_child_of_mem (memberLast last)
  have has : ({ m with nodes := nodes' } : Memory).Has p := ⟨self, held⟩
  have hasNew : ({ m with nodes := nodes' } : Memory).Has c := hasChild
  apply Ends.bind
  refine (sCanContain_ends stored parent child apart).mono ?_
  rintro _ _ ⟨rfl, rfl⟩
  rw [if_pos allowed]
  apply Ends.bind
  refine unlinks.mono ?_
  rintro _ _ rfl
  apply Ends.bind
  apply load_ends held
  rw [last]
  apply Ends.bind
  apply change_ends hasNew
  apply Ends.bind
  apply change_ends has.adjustAt
  apply Ends.bind
  apply ifSome_change_ends fun q isLast => (hasLast q isLast).adjustAt.adjustAt
  apply Ends.bind
  apply unlessSome_change_ends has.adjustAt.adjustAt.adjustAt
  refine Ends.pure ⟨rfl, done.of_nodes (fun i => ?_) rfl rfl⟩
  simp only [Memory.adjustAt, Option.map_map, spliced]
  refine Option.map_congr fun node _ => ?_
  simp only [Function.comp, splicedNode, Option.some.injEq, List.head?_nil,
    List.getLast?_eq_none_iff, @eq_comm _ c i]
  by_cases new : i = c
  · subst new
    simp [newNotParent, newNotParent.symm, newNotLast]
  · by_cases parent : i = p
    · subst parent
      simp [new, lastNotParent]
      split_ifs <;> rfl
    · simp [new, parent, Ne.symm parent]
      split_ifs <;> rfl

/-- **A loose node is put after the children of another.** -/
theorem cmarkNodeAppendChild_loose {siblings : List Ref} (stored : Stored m shape k iter)
    (insertable : Insertable shape p c siblings above inner) :
    (cmarkNodeAppendChild p c).Ends m fun done m' =>
      done = true ∧ Stored m' (shape.setKids p (siblings ++ [c])) k iter :=
  cmarkNodeAppendChild_limbo stored insertable.parent insertable.child insertable.apart
    insertable.allowed
    (sNodeUnlink_loose stored.linked (stored.has insertable.child) insertable.loose)
    (stored.linked.limbo _) stored.unused (stored.has insertable.parent)
    (stored.has insertable.child) insertable.kids insertable.loose insertable.apart

/-- **The first child of a node is put after the children of another.** -/
theorem cmarkNodeAppendChild_placed {siblings : List Ref} {q : Ref}
    (stored : Stored m shape k iter) (kids : shape.kids q = c :: after) (other : q ≠ p)
    (others : shape.kids p = siblings) (parent : shape.label p = some above)
    (child : shape.label c = some inner) (apart : ¬ shape.Below c p)
    (allowed : mayContain above.type inner.type = true) :
    (cmarkNodeAppendChild p c).Ends m fun done m' =>
      done = true ∧ Stored m' ((shape.setKids q after).setKids p (siblings ++ [c])) k iter := by
  have linked := stored.linked
  have split : shape.kids q = [] ++ c :: after := kids
  have fewer {i j : Ref} (below : (shape.setKids q after).Below i j) : shape.Below i j := by
    refine below.mono fun r a inList => ?_
    rw [Shape.kids_setKids] at inList
    split_ifs at inList with here
    · subst here
      rw [kids]
      exact List.mem_cons_of_mem _ inList
    · exact inList
  refine cmarkNodeAppendChild_limbo stored parent child apart allowed
    (sNodeUnlink_placed linked split) (linked.unsplice split)
    (fun i new => congrArg (Option.map _) (stored.unused i new)) ?_ ?_ ?_
    (linked.not_mem_kids_unsplice split) (fun below => apart (fewer below))
  · obtain ⟨node, held⟩ := stored.has parent
    exact ⟨_, congrArg (Option.map _) held⟩
  · obtain ⟨node, held⟩ := stored.has child
    exact ⟨_, congrArg (Option.map _) held⟩
  · rw [Shape.kids_setKids, if_neg (Ne.symm other), others]

end Link

end HashArchive.Cmark
