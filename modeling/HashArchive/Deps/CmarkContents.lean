import HashArchive.Deps.CmarkTrees

/-!
# Nodes that come and go

New nodes, nodes that are freed, and what is read from a node or set in it: these change the labels
of the shape, and which labels there are.
-/

set_option autoImplicit false

namespace HashArchive.Cmark

open Program

/-! ## New nodes, and nodes that are freed -/

section Allocation

variable {m : Memory} {shape : Shape Ref Content} {k : Ref} {iter : Iter} {p c : Ref}
  {before after : List Ref}

/-- A node without pointers is there now. -/
theorem Linked.add {nodes : Ref → Option Node} (linked : Linked none nodes shape)
    (notThere : nodes c = none) (superscript : Bool) (type : NodeType) :
    Linked none (fun i => if i = c then some (blank superscript type) else nodes i)
      (shape.setLabel c (some (blank superscript type).content)) := by
  have alone := linked.dead c notThere
  constructor
  · intro n
    rw [Shape.label_setLabel, linked.label]
    split_ifs <;> rfl
  · intro n node held
    split_ifs at held with here
    · cases held
      rw [Shape.kids_setLabel, here, alone]
      exact ⟨rfl, rfl⟩
    · exact linked.ends n node held
  · intro q front x back split
    obtain ⟨node, held, pointers⟩ := linked.placed q front x back split
    refine ⟨node, ?_, pointers⟩
    rw [if_neg, held]
    rintro rfl
    rw [notThere] at held
    cases held
  · intro i node held _ nowhere
    split_ifs at held with here
    · cases held
      exact ⟨rfl, rfl, rfl⟩
    · exact linked.loose i node held (Option.some_ne_none i) nowhere
  · intro n gone
    split_ifs at gone
    exact linked.dead n gone
  · exact linked.nodup
  · exact linked.acyclic

/-- **A new node** is blank, and nothing points to it. -/
theorem newNode_ends (stored : Stored m shape k iter) {superscript : Bool} {type : NodeType}
    {post : Ref → Memory → Prop}
    (holds : ∀ m', Stored m' (shape.setLabel k (some (blank superscript type).content)) (k + 1) iter →
      post k m') : (newNode superscript type).Ends m post := by
  obtain ⟨linked, unused, rfl, sameIter⟩ := stored
  refine Ends.step rfl (holds _ ⟨linked.add (unused _ (Nat.le_refl _)) superscript type,
    fun n new => ?_, rfl, sameIter⟩)
  show (if n = m.fresh then some (blank superscript type) else m.nodes n) = none
  rw [if_neg (Nat.ne_of_gt new)]
  exact unused n (Nat.le_of_succ_le new)

/-- A node in limbo is no longer there. -/
theorem Linked.release {nodes : Ref → Option Node} (linked : Linked (some c) nodes shape)
    (alone : shape.kids c = []) (loose : ∀ q, c ∉ shape.kids q) :
    Linked none (fun i => if i = c then none else nodes i) (shape.setLabel c none) := by
  constructor
  · intro n
    rw [Shape.label_setLabel, linked.label]
    split_ifs <;> rfl
  · intro n node held
    split_ifs at held
    exact linked.ends n node held
  · intro q front x back split
    obtain ⟨node, held, pointers⟩ := linked.placed q front x back split
    have child : x ∈ shape.kids q := by
      rw [show shape.kids q = front ++ x :: back from split]
      simp
    have other : x ≠ c := fun same => loose q (same ▸ child)
    exact ⟨node, (if_neg other).trans held, pointers⟩
  · intro i node held _ nowhere
    split_ifs at held with here
    exact linked.loose i node held (fun same => here (Option.some.inj same)) nowhere
  · intro n gone
    rw [Shape.kids_setLabel]
    split_ifs at gone with here
    · rw [here, alone]
    · exact linked.dead n gone
  · exact linked.nodup
  · exact linked.acyclic

/-- **A node without children is freed.** -/
theorem cmarkNodeFree_ends (stored : Stored m shape k iter)
    (kids : shape.kids p = before ++ c :: after) (alone : shape.kids c = []) :
    (cmarkNodeFree c).Ends m fun _ m' =>
      Stored m' ((shape.setKids p (before ++ after)).setLabel c none) k iter := by
  have linked := stored.linked
  have member : c ∈ shape.kids p := by
    rw [kids]
    exact List.mem_append_right _ List.mem_cons_self
  have aloneStill : (shape.setKids p (before ++ after)).kids c = [] := by
    rw [Shape.kids_setKids, if_neg (linked.ne_of_mem member), alone]
  have loose := linked.not_mem_kids_unsplice kids
  have limbo := linked.unsplice kids
  obtain ⟨node, held⟩ := linked.exists_child_of_mem member
  have heldStill : unspliced m.nodes p before after c =
      some (unsplicedNode p before after c node) := congrArg (Option.map _) held
  obtain ⟨-, last⟩ := limbo.ends c _ heldStill
  rw [aloneStill] at last
  apply Ends.bind
  refine (sNodeUnlink_placed linked kids).mono ?_
  rintro _ _ rfl
  apply Ends.bind
  apply change_ends ⟨_, heldStill⟩
  apply Ends.loop
  have heldNow : (Memory.adjustAt { m with nodes := unspliced m.nodes p before after } (some c)
      fun n => { n with next := none }).nodes c =
      some { unsplicedNode p before after c node with next := none } := by
    simp [Memory.adjustAt, heldStill]
  apply Ends.bind
  apply load_ends heldNow
  apply Ends.bind
  rw [last]
  apply Ends.pure
  apply Ends.bind
  apply load_ends heldNow
  apply Ends.bind
  apply Ends.modify
  apply Ends.pure
  apply Ends.loop
  apply Ends.pure
  have gone : Stored
      { m with nodes := fun i => if i = c then none else unspliced m.nodes p before after i }
      ((shape.setKids p (before ++ after)).setLabel c none) k iter := by
    refine ⟨limbo.release aloneStill loose, fun i new => ?_, stored.fresh, stored.iter⟩
    have nothing : unspliced m.nodes p before after i = none :=
      congrArg (Option.map _) (stored.unused i new)
    exact ite_eq_left_iff.mpr fun _ => nothing
  refine gone.of_nodes (fun i => ?_) rfl rfl
  by_cases here : i = c
  · simp only [if_pos here]
  · have other : c ≠ i := Ne.symm here
    simp [Memory.adjustAt, here, other]

end Allocation

/-! ## Contents -/

section Contents

variable {m : Memory} {shape : Shape Ref Content} {k : Ref} {iter : Iter} {n : Ref}
  {content : Content}

/-- What a node is, is changed. -/
theorem change_content_ends (stored : Stored m shape k iter)
    (label : shape.label n = some content) (f : Content → Content) :
    (change n fun node => { node with content := f node.content }).Ends m fun _ m' =>
      Stored m' (shape.setLabel n (some (f content))) k iter := by
  have linked := stored.linked
  obtain ⟨self, held, rfl⟩ := stored.exists_of_label label
  refine change_ends ⟨self, held⟩ ⟨?_, fun i new => ?_, stored.fresh, stored.iter⟩
  · have same {i : Ref} {node : Node} : ∀ node', (if some n = some i then
        { node with content := f node.content } else node) = node' → node'.next = node.next ∧
        node'.prev = node.prev ∧ node'.parent = node.parent ∧
        node'.firstChild = node.firstChild ∧ node'.lastChild = node.lastChild := by
      rintro _ rfl
      split_ifs <;> exact ⟨rfl, rfl, rfl, rfl, rfl⟩
    constructor
    · intro i
      rw [Shape.label_setLabel, linked.label]
      by_cases here : i = n
      · subst here
        simp [Memory.adjustAt, held]
      · have other : n ≠ i := Ne.symm here
        simp [Memory.adjustAt, here, other]
    · intro i node held
      obtain ⟨old, heldOld, now⟩ := Option.map_eq_some_iff.mp held
      obtain ⟨-, -, -, first, last⟩ := same node now
      rw [first, last]
      exact linked.ends i old heldOld
    · intro q front x back split
      obtain ⟨old, heldOld, up, left, right⟩ := linked.placed q front x back split
      obtain ⟨sameRight, sameLeft, sameUp, -⟩ := same _ (rfl : (if some n = some x then
        { old with content := f old.content } else old) = _)
      exact ⟨_, congrArg (Option.map _) heldOld, sameUp.trans up, sameLeft.trans left,
        sameRight.trans right⟩
    · intro i node held _ nowhere
      obtain ⟨old, heldOld, now⟩ := Option.map_eq_some_iff.mp held
      obtain ⟨sameRight, sameLeft, sameUp, -⟩ := same node now
      rw [sameRight, sameLeft, sameUp]
      exact linked.loose i old heldOld (Option.some_ne_none i) nowhere
    · intro i gone
      exact linked.dead i (Option.map_eq_none_iff.mp gone)
    · exact linked.nodup
    · exact linked.acyclic
  · exact congrArg (Option.map _) (stored.unused i new)

theorem cmarkNodeSetLiteral_ends (stored : Stored m shape k iter)
    (label : shape.label n = some content) (has : content.type.hasLiteral = true)
    (literal : Option Str) : (cmarkNodeSetLiteral n literal).Ends m fun _ m' =>
      Stored m' (shape.setLabel n (some { content with literal := literal.getD [] })) k iter := by
  obtain ⟨self, held, rfl⟩ := stored.exists_of_label label
  apply Ends.bind
  apply load_ends held
  rw [if_pos has]
  apply Ends.bind
  refine (change_content_ends stored label fun c => { c with literal := literal.getD [] }).mono ?_
  intro _ _ changed
  exact Ends.pure changed

theorem cmarkNodeSetUrl_ends (stored : Stored m shape k iter)
    (label : shape.label n = some content) (has : content.type.hasUrl = true)
    (url : Option Str) : (cmarkNodeSetUrl n url).Ends m fun _ m' =>
      Stored m' (shape.setLabel n (some { content with url := url.getD [] })) k iter := by
  obtain ⟨self, held, rfl⟩ := stored.exists_of_label label
  apply Ends.bind
  apply load_ends held
  rw [if_pos has]
  apply Ends.bind
  refine (change_content_ends stored label fun c => { c with url := url.getD [] }).mono ?_
  intro _ _ changed
  exact Ends.pure changed

theorem cmarkNodeSetTitle_ends (stored : Stored m shape k iter)
    (label : shape.label n = some content) (has : content.type.hasUrl = true)
    (title : Option Str) : (cmarkNodeSetTitle n title).Ends m fun _ m' =>
      Stored m' (shape.setLabel n (some { content with title := title.getD [] })) k iter := by
  obtain ⟨self, held, rfl⟩ := stored.exists_of_label label
  apply Ends.bind
  apply load_ends held
  rw [if_pos has]
  apply Ends.bind
  refine (change_content_ends stored label fun c => { c with title := title.getD [] }).mono ?_
  intro _ _ changed
  exact Ends.pure changed

theorem cmarkNodeGetType_ends (stored : Stored m shape k iter)
    (label : shape.label n = some content) {post : NodeType → Memory → Prop}
    (holds : post content.type m) : (cmarkNodeGetType n).Ends m post := by
  obtain ⟨self, held, rfl⟩ := stored.exists_of_label label
  exact Ends.bind (load_ends held (Ends.pure holds))

theorem cmarkNodeGetLiteral_ends (stored : Stored m shape k iter)
    (label : shape.label n = some content) (has : content.type.hasLiteral = true)
    {post : Option Str → Memory → Prop} (holds : post (some content.literal) m) :
    (cmarkNodeGetLiteral n).Ends m post := by
  obtain ⟨self, held, rfl⟩ := stored.exists_of_label label
  refine Ends.bind (load_ends held (Ends.pure ?_))
  rw [if_pos has]
  exact holds

theorem cmarkNodeGetUrl_ends (stored : Stored m shape k iter)
    (label : shape.label n = some content) (has : content.type.hasUrl = true)
    {post : Option Str → Memory → Prop} (holds : post (some content.url) m) :
    (cmarkNodeGetUrl n).Ends m post := by
  obtain ⟨self, held, rfl⟩ := stored.exists_of_label label
  refine Ends.bind (load_ends held (Ends.pure ?_))
  rw [if_pos has]
  exact holds

theorem cmarkNodeFirstChild_ends (stored : Stored m shape k iter)
    (label : shape.label n = some content) {post : Option Ref → Memory → Prop}
    (holds : post (shape.kids n).head? m) : (cmarkNodeFirstChild n).Ends m post := by
  obtain ⟨self, held, rfl⟩ := stored.exists_of_label label
  rw [← (stored.linked.ends n self held).1] at holds
  exact Ends.bind (load_ends held (Ends.pure holds))

end Contents

end HashArchive.Cmark
