import HashArchive.Deps.CmarkContents

/-!
# Building trees beside a document

New nodes are made one after the other, so that they have consecutive numbers; they are given
contents and put below each other, and the document knows nothing of them. `grow` adds a list of such
nodes to a shape, each with its content and its children, and `Bench` says that the memory holds
it. A function that builds something is then run on the list alone.
-/

set_option autoImplicit false

namespace HashArchive.Cmark

open Program

/-! ## New nodes in a shape -/

/-- The shape with more nodes, from `k` on. -/
def grow (shape : Shape Ref Content) (k : ℕ) (entries : List (Content × List Ref)) :
    Shape Ref Content where
  kids i := if i < k then shape.kids i else (entries[i - k]?.map Prod.snd).getD []
  label i := if i < k then shape.label i else entries[i - k]?.map Prod.fst

section Grow

variable {shape : Shape Ref Content} {k : ℕ} {entries : List (Content × List Ref)} {i j : ℕ}

theorem kids_grow_of_lt (old : i < k) : (grow shape k entries).kids i = shape.kids i := if_pos old

theorem label_grow_of_lt (old : i < k) : (grow shape k entries).label i = shape.label i := if_pos old

@[simp] theorem kids_grow_add :
    (grow shape k entries).kids (k + j) = (entries[j]?.map Prod.snd).getD [] := by
  simp only [grow, if_neg (Nat.not_lt.mpr (Nat.le_add_right k j)), Nat.add_sub_cancel_left]

@[simp] theorem label_grow_add :
    (grow shape k entries).label (k + j) = entries[j]?.map Prod.fst := by
  simp only [grow, if_neg (Nat.not_lt.mpr (Nat.le_add_right k j)), Nat.add_sub_cancel_left]

@[simp] theorem kids_grow_self :
    (grow shape k entries).kids k = (entries[0]?.map Prod.snd).getD [] := @kids_grow_add _ _ _ 0

@[simp] theorem label_grow_self :
    (grow shape k entries).label k = entries[0]?.map Prod.fst := @label_grow_add _ _ _ 0

/-- Two shapes are the same if they are on the old nodes and on the new ones. -/
theorem shape_ext (k : ℕ) {first second : Shape Ref Content}
    (old : ∀ i < k, first.kids i = second.kids i ∧ first.label i = second.label i)
    (new : ∀ j, first.kids (k + j) = second.kids (k + j) ∧
      first.label (k + j) = second.label (k + j)) : first = second := by
  have same (i : Ref) : first.kids i = second.kids i ∧ first.label i = second.label i := by
    rcases Nat.lt_or_ge i k with small | large
    · exact old i small
    · obtain ⟨j, rfl⟩ := Nat.exists_eq_add_of_le large
      exact new j
  exact Shape.ext (funext fun i => (same i).1) (funext fun i => (same i).2)

/-- Nodes that are added later. -/
theorem grow_grow (more : List (Content × List Ref)) :
    grow (grow shape k entries) (k + entries.length) more = grow shape k (entries ++ more) := by
  refine shape_ext k (fun i old => ?_) fun j => ?_
  · have older := Nat.lt_add_right entries.length old
    simp only [kids_grow_of_lt old, label_grow_of_lt old, kids_grow_of_lt older,
      label_grow_of_lt older, and_self]
  · rcases Nat.lt_or_ge j entries.length with first | second
    · have small : k + j < k + entries.length := Nat.add_lt_add_left first k
      simp [kids_grow_of_lt small, label_grow_of_lt small, List.getElem?_append_left first]
    · obtain ⟨i, rfl⟩ := Nat.exists_eq_add_of_le second
      rw [← Nat.add_assoc, kids_grow_add, label_grow_add, Nat.add_assoc, kids_grow_add,
        label_grow_add, List.getElem?_append_right second, Nat.add_sub_cancel_left]
      exact ⟨rfl, rfl⟩

/-- One of the new nodes has another content or other children. -/
theorem grow_set {content : Content} {kids : List Ref} (within : j < entries.length) :
    grow shape k (entries.set j (content, kids)) =
      ((grow shape k entries).setLabel (k + j) (some content)).setKids (k + j) kids := by
  refine shape_ext k (fun i old => ?_) fun i => ?_
  · have other : i ≠ k + j := Nat.ne_of_lt (Nat.lt_add_right j old)
    simp [kids_grow_of_lt old, label_grow_of_lt old, other]
  · by_cases here : i = j
    · subst here
      simp [within]
    · simp [here, Ne.symm here]

/-- One more new node, without children. -/
theorem grow_concat (content : Content) : grow shape k (entries ++ [(content, [])]) =
    (grow shape k entries).setLabel (k + entries.length) (some content) := by
  refine shape_ext k (fun i old => ?_) fun j => ?_
  · have other : i ≠ k + entries.length := Nat.ne_of_lt (Nat.lt_add_right _ old)
    simp [kids_grow_of_lt old, label_grow_of_lt old, other]
  · rcases Nat.lt_trichotomy j entries.length with first | rfl | later
    · simp [List.getElem?_append_left first, Nat.ne_of_lt first]
    · simp
    · have least : 1 ≤ j - entries.length := Nat.sub_pos_of_lt later
      simp [List.getElem?_append_right (Nat.le_of_lt later), Nat.ne_of_gt later,
        List.getElem?_eq_none (Nat.le_of_lt later), Nat.ne_of_gt least]

end Grow

/-! ## The bench -/

/-- **The memory holds a document and new nodes.** -/
def Bench (m : Memory) (shape : Shape Ref Content) (k : ℕ) (entries : List (Content × List Ref))
    (iter : Iter) : Prop :=
  Stored m (grow shape k entries) (k + entries.length) iter

section Bench

variable {m : Memory} {shape : Shape Ref Content} {k : ℕ} {entries : List (Content × List Ref)}
  {iter : Iter} {i j : ℕ} {content inner : Content} {kids below : List Ref}

/-- Nothing is on the bench. -/
theorem Bench.start (stored : Stored m shape k iter) : Bench m shape k [] iter := by
  have same : grow shape k [] = shape := by
    refine shape_ext k (fun i old => ⟨kids_grow_of_lt old, label_grow_of_lt old⟩) fun j => ?_
    have gone := stored.label_eq_none (Nat.le_add_right k j)
    simp [gone, stored.kids_eq_nil gone]
  rw [Bench, same]
  exact stored

theorem lt_of_getElem? {entry : Content × List Ref} (held : entries[j]? = some entry) :
    j < entries.length := (List.getElem?_eq_some_iff.mp held).1

/-- A new node is put on the bench. -/
theorem Bench.new (bench : Bench m shape k entries iter) (size : entries.length = j)
    {superscript : Bool} {type : NodeType} {post : Ref → Memory → Prop}
    (holds : ∀ m', Bench m' shape k (entries ++ [((blank superscript type).content, [])]) iter →
      post (k + j) m') : (newNode superscript type).Ends m post := by
  subst size
  refine newNode_ends bench fun m' stored => holds m' ?_
  rw [Bench, grow_concat, List.length_append]
  exact stored

/-- A node on the bench is given another content. -/
theorem Bench.relabel (held : entries[j]? = some (content, kids)) (content' : Content)
    (stored : Stored m ((grow shape k entries).setLabel (k + j) (some content'))
      (k + entries.length) iter) : Bench m shape k (entries.set j (content', kids)) iter := by
  have same : ((grow shape k entries).setLabel (k + j) (some content')).kids (k + j) = kids := by
    simp [held]
  rw [Bench, grow_set (lt_of_getElem? held), List.length_set]
  convert stored using 1
  refine Shape.ext (funext fun i => ?_) rfl
  rw [Shape.kids_setKids]
  split_ifs with here
  · rw [here, same]
  · rfl

theorem Bench.setLiteral (bench : Bench m shape k entries iter)
    (held : entries[j]? = some (content, kids)) (has : content.type.hasLiteral = true)
    {literal : Option Str} {post : Bool → Memory → Prop}
    (holds : ∀ done m', Bench m' shape k
      (entries.set j ({ content with literal := literal.getD [] }, kids)) iter → post done m') :
    (cmarkNodeSetLiteral (k + j) literal).Ends m post :=
  (cmarkNodeSetLiteral_ends bench (by simp [held]) has literal).mono fun done m' stored =>
    holds done m' (Bench.relabel held _ stored)

theorem Bench.setUrl (bench : Bench m shape k entries iter)
    (held : entries[j]? = some (content, kids)) (has : content.type.hasUrl = true)
    {url : Option Str} {post : Bool → Memory → Prop}
    (holds : ∀ done m', Bench m' shape k
      (entries.set j ({ content with url := url.getD [] }, kids)) iter → post done m') :
    (cmarkNodeSetUrl (k + j) url).Ends m post :=
  (cmarkNodeSetUrl_ends bench (by simp [held]) has url).mono fun done m' stored =>
    holds done m' (Bench.relabel held _ stored)

theorem Bench.setTitle (bench : Bench m shape k entries iter)
    (held : entries[j]? = some (content, kids)) (has : content.type.hasUrl = true)
    {title : Option Str} {post : Bool → Memory → Prop}
    (holds : ∀ done m', Bench m' shape k
      (entries.set j ({ content with title := title.getD [] }, kids)) iter → post done m') :
    (cmarkNodeSetTitle (k + j) title).Ends m post :=
  (cmarkNodeSetTitle_ends bench (by simp [held]) has title).mono fun done m' stored =>
    holds done m' (Bench.relabel held _ stored)

/-- Nothing is above a node without a parent, but itself. -/
theorem not_below_of_loose {c p : Ref} (loose : ∀ q, p ∉ shape.kids q) (other : c ≠ p) :
    ¬ shape.Below c p := by
  intro below
  rcases Relation.ReflTransGen.cases_tail below with same | ⟨q, -, child⟩
  · exact other same.symm
  · exact loose q child

/-- A new node that is below no other new node has no parent. -/
theorem loose_grow (old : ∀ q, k + j ∉ shape.kids q) (new : ∀ entry ∈ entries, k + j ∉ entry.2)
    (q : Ref) : k + j ∉ (grow shape k entries).kids q := by
  rcases Nat.lt_or_ge q k with small | large
  · rw [kids_grow_of_lt small]
    exact old q
  · obtain ⟨i, rfl⟩ := Nat.exists_eq_add_of_le large
    rw [kids_grow_add]
    cases held : entries[i]? with
    | none => exact List.not_mem_nil
    | some entry => exact new entry (List.mem_of_getElem? held)

/-- A node on the bench is given other children. -/
theorem Bench.setKids (held : entries[j]? = some (content, kids)) {kids' : List Ref}
    (stored : Stored m ((grow shape k entries).setKids (k + j) kids') (k + entries.length) iter) :
    Bench m shape k (entries.set j (content, kids')) iter := by
  rw [Bench, grow_set (lt_of_getElem? held), List.length_set]
  convert stored using 1
  refine Shape.ext (funext fun q => ?_) (funext fun q => ?_)
  · simp
  · rw [Shape.label_setKids, Shape.label_setKids, Shape.label_setLabel]
    split_ifs with here
    · simp [here, held]
    · rfl

/-- A node on the bench is put below another. -/
theorem Bench.append (bench : Bench m shape k entries iter) (old : ∀ q, k + j ∉ shape.kids q)
    (oldParent : ∀ q, k + i ∉ shape.kids q) (parent : entries[i]? = some (content, kids))
    (child : entries[j]? = some (inner, below)) (other : j ≠ i)
    (loose : ∀ entry ∈ entries, k + i ∉ entry.2 ∧ k + j ∉ entry.2)
    (allowed : mayContain content.type inner.type = true) {post : Bool → Memory → Prop}
    (holds : ∀ done m', Bench m' shape k (entries.set i (content, kids ++ [k + j])) iter →
      post done m') : (cmarkNodeAppendChild (k + i) (k + j)).Ends m post := by
  have looseChild := loose_grow old fun entry member => (loose entry member).2
  have looseParent := loose_grow oldParent fun entry member => (loose entry member).1
  have different : k + j ≠ k + i := fun same => other (Nat.add_left_cancel same)
  refine (cmarkNodeAppendChild_loose bench ⟨rfl, by simp [parent], by simp [child], looseChild,
    not_below_of_loose looseParent different, allowed⟩).mono fun done m' stored => holds done m' ?_
  have appended := Bench.setKids parent stored.2
  rwa [kids_grow_add, parent] at appended

/-- What is built beside a bench is on the bench. -/
theorem Bench.join {more : List (Content × List Ref)}
    (bench : Bench m (grow shape k entries) (k + entries.length) more iter) :
    Bench m shape k (entries ++ more) iter := by
  rw [Bench, grow_grow, Nat.add_assoc, ← List.length_append] at bench
  exact bench

/-! ## From the bench into the document -/

variable {p n : Ref} {before after : List Ref} {above : Content}

/-- A document changes, and the bench stays. -/
theorem grow_setKids_of_lt (old : p < k) (list : List Ref) :
    (grow shape k entries).setKids p list = grow (shape.setKids p list) k entries := by
  refine shape_ext k (fun i small => ?_) fun j => ?_
  · simp [kids_grow_of_lt small, label_grow_of_lt small]
  · have other : k + j ≠ p := Nat.ne_of_gt (Nat.lt_add_right j old)
    simp [other]

/-- Below a new node there are only new nodes. -/
theorem le_of_below_grow (new : ∀ entry ∈ entries, ∀ c ∈ entry.2, k ≤ c) {a b : Ref} (large : k ≤ a)
    (below : (grow shape k entries).Below a b) : k ≤ b := by
  induction below with
  | refl => exact large
  | @tail b c _ child ih =>
      obtain ⟨j, rfl⟩ := Nat.exists_eq_add_of_le ih
      rw [kids_grow_add] at child
      cases held : entries[j]? with
      | none => rw [held] at child; cases child
      | some entry =>
          rw [held] at child
          exact new entry (List.mem_of_getElem? held) c child

/-- What a node on the bench has to be like so that it can go into the document. -/
structure Ready (shape : Shape Ref Content) (k : ℕ) (entries : List (Content × List Ref)) (j : ℕ)
    (p : Ref) (above : Content) : Prop where
  parent : shape.label p = some above
  small : p < k
  child : ∃ inner kids, entries[j]? = some (inner, kids) ∧
    mayContain above.type inner.type = true
  old : ∀ q, k + j ∉ shape.kids q
  loose : ∀ entry ∈ entries, k + j ∉ entry.2
  apart : ¬ (grow shape k entries).Below (k + j) p

/-- A new node with nothing but new nodes below it is not above the document. -/
theorem not_below_grow (small : p < k) (new : ∀ entry ∈ entries, ∀ c ∈ entry.2, k ≤ c) :
    ¬ (grow shape k entries).Below (k + j) p := fun below =>
  absurd small (Nat.not_lt.mpr (le_of_below_grow new (Nat.le_add_right k j) below))

theorem Ready.insertable (ready : Ready shape k entries j p above) {siblings : List Ref}
    (place : shape.kids p = siblings) :
    ∃ inner, Insertable (grow shape k entries) p (k + j) siblings above inner := by
  obtain ⟨inner, kids, held, allowed⟩ := ready.child
  refine ⟨inner, (kids_grow_of_lt ready.small).trans place,
    (label_grow_of_lt ready.small).trans ready.parent, by simp [held],
    loose_grow ready.old ready.loose, ready.apart, allowed⟩

/-- **A tree from the bench is put before a node.** -/
theorem Bench.insertBefore (bench : Bench m shape k entries iter)
    (ready : Ready shape k entries j p above) (place : shape.kids p = before ++ n :: after)
    {post : Bool → Memory → Prop}
    (holds : ∀ done m', Bench m' (shape.setKids p (before ++ (k + j) :: n :: after)) k entries iter →
      post done m') : (cmarkNodeInsertBefore n (k + j)).Ends m post := by
  obtain ⟨inner, insertable⟩ := ready.insertable place
  refine (cmarkNodeInsertBefore_ends bench insertable).mono fun done m' stored => holds done m' ?_
  rw [Bench, ← grow_setKids_of_lt ready.small]
  exact stored.2

/-- **A tree from the bench is put after a node.** -/
theorem Bench.insertAfter (bench : Bench m shape k entries iter)
    (ready : Ready shape k entries j p above) (place : shape.kids p = before ++ n :: after)
    {post : Bool → Memory → Prop}
    (holds : ∀ done m', Bench m' (shape.setKids p (before ++ n :: (k + j) :: after)) k entries iter →
      post done m') : (cmarkNodeInsertAfter n (k + j)).Ends m post := by
  obtain ⟨inner, insertable⟩ := ready.insertable place
  refine (cmarkNodeInsertAfter_ends bench insertable).mono fun done m' stored => holds done m' ?_
  rw [Bench, ← grow_setKids_of_lt ready.small]
  exact stored.2

/-- What is on the bench, and stands in the document. -/
theorem replaced_grow {new : Forest Ref Content} (small : p < k)
    (spans : Forest.Spans (grow shape k entries) new) (outside : p ∉ new.ids) :
    Forest.Replaced shape (grow (shape.setKids p (before ++ new.roots ++ after)) k entries) k p
      before after .nil new where
  kids := by rw [kids_grow_of_lt small, Shape.kids_setKids, if_pos rfl]
  parent := label_grow_of_lt small
  spans := by
    rw [← grow_setKids_of_lt small]
    refine spans.congr fun i member => ?_
    have other : i ≠ p := fun same => outside (same ▸ member)
    rw [Shape.kids_setKids, if_neg other]
    exact ⟨rfl, rfl⟩
  frame i old _ other := by
    rw [kids_grow_of_lt old, label_grow_of_lt old, Shape.kids_setKids, if_neg other]
    exact ⟨rfl, rfl⟩

end Bench

end HashArchive.Cmark
