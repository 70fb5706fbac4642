import HashArchive.Deps.CmarkTrees

/-!
# Walking through a document that changes

The iterator enters a node, goes through its children, and leaves it; a leaf it only enters. At
a node's last event the event after it is chosen already: the first of the siblings that
follow, or the exit of the parent (`firstEvent`). So a loop over the events may do what it
likes with the node it is at and with the nodes below, as long as it leaves those that follow and
the parent.

`Handles` says this of what is done at one event. What a loop of such rounds does to a whole
document is then a rewriting from the leaves to the root (`eachEvent_ends`), by induction
on the forest, and the loop ends because the forest does. Nodes that are put in place of others are
never reached.
-/

set_option autoImplicit false

namespace HashArchive.Cmark

open Program

/-! ## One step of the iterator -/

/-- The event at the first of some siblings, or at the end of them. -/
def firstEvent (siblings : List Ref) (parent : Ref) : IterState :=
  match siblings with
  | [] => ⟨.exit, some parent⟩
  | first :: _ => ⟨.enter, some first⟩

/-- The event with which a node is left. -/
def lastEvent (type : NodeType) : EventType := if type.isLeaf then .enter else .exit

section Next

variable {m : Memory} {shape : Shape Ref Content} {k root n p : Ref} {old : IterState}
  {content : Content} {before after : List Ref}

/-- The iterator takes the event it has chosen, and chooses another. -/
theorem cmarkIterNext_of_rollForward {ev : EventType} {next : IterState}
    (stored : Stored m shape k ⟨root, old, ⟨ev, some n⟩⟩) (notDone : ev ≠ .done) {self : Node}
    (held : m.nodes n = some self)
    (chosen : ∀ m' : Memory, (rollForward root ev n self).Ends m' fun result after =>
      result = next ∧ after = m') :
    cmarkIterNext.Ends m fun result m' =>
      result = ev ∧ Stored m' shape k ⟨root, ⟨ev, some n⟩, next⟩ := by
  obtain ⟨linked, unused, fresh, iter⟩ := stored
  apply Ends.bind
  apply Ends.get
  apply Ends.bind
  apply Ends.modify
  rw [iter, if_neg notDone]
  apply Ends.bind
  refine @load_ends _ n self _ held ?_
  apply Ends.bind
  refine (chosen _).mono ?_
  rintro _ _ ⟨rfl, rfl⟩
  apply Ends.bind
  apply Ends.modify
  exact Ends.pure ⟨rfl, linked, unused, fresh, rfl⟩

/-- A node is entered, and its children come next. -/
theorem cmarkIterNext_enter (stored : Stored m shape k ⟨root, old, ⟨.enter, some n⟩⟩)
    (label : shape.label n = some content) (inner : content.type.isLeaf = false) :
    cmarkIterNext.Ends m fun result m' => result = .enter ∧
      Stored m' shape k ⟨root, ⟨.enter, some n⟩, firstEvent (shape.kids n) n⟩ := by
  obtain ⟨self, held, rfl⟩ := stored.exists_of_label label
  obtain ⟨first, -⟩ := stored.linked.ends n self held
  refine cmarkIterNext_of_rollForward stored (by simp) held fun m' => ?_
  rw [rollForward, if_pos ⟨rfl, inner⟩, first]
  cases shape.kids n with
  | nil => exact Ends.pure ⟨rfl, rfl⟩
  | cons child rest => exact Ends.pure ⟨rfl, rfl⟩

/-- A node is left, and the siblings that follow come next. -/
theorem cmarkIterNext_leave
    (stored : Stored m shape k ⟨root, old, ⟨lastEvent content.type, some n⟩⟩)
    (label : shape.label n = some content) (kids : shape.kids p = before ++ n :: after)
    (notRoot : n ≠ root) :
    cmarkIterNext.Ends m fun result m' => result = lastEvent content.type ∧
      Stored m' shape k ⟨root, ⟨lastEvent content.type, some n⟩, firstEvent after p⟩ := by
  obtain ⟨self, held, rfl⟩ := stored.exists_of_label label
  obtain ⟨node, held', up, -, right⟩ := stored.linked.placed p before n after kids
  cases held.symm.trans held'
  have notDone : lastEvent self.content.type ≠ .done := by
    unfold lastEvent
    split_ifs <;> simp
  have notOpening : ¬ (lastEvent self.content.type = .enter ∧ self.content.type.isLeaf = false) := by
    rintro ⟨enters, inner⟩
    simp [lastEvent, inner] at enters
  refine cmarkIterNext_of_rollForward stored notDone held fun m' => ?_
  rw [rollForward, if_neg notOpening, if_neg notRoot, up, right]
  cases after with
  | nil => exact Ends.pure ⟨rfl, rfl⟩
  | cons next rest => exact Ends.pure ⟨rfl, rfl⟩

/-- The root is left last. -/
theorem cmarkIterNext_root (stored : Stored m shape k ⟨root, old, ⟨.exit, some root⟩⟩)
    (label : shape.label root = some content) :
    cmarkIterNext.Ends m fun result m' => result = .exit ∧
      Stored m' shape k ⟨root, ⟨.exit, some root⟩, ⟨.done, none⟩⟩ := by
  obtain ⟨self, held, rfl⟩ := stored.exists_of_label label
  refine cmarkIterNext_of_rollForward stored (by simp) held fun m' => ?_
  rw [rollForward, if_neg (by simp), if_pos rfl]
  exact Ends.pure ⟨rfl, rfl⟩

theorem cmarkIterNext_done {node : Option Ref}
    (stored : Stored m shape k ⟨root, old, ⟨.done, node⟩⟩) :
    cmarkIterNext.Ends m fun result m' => result = .done ∧
      Stored m' shape k ⟨root, ⟨.done, node⟩, ⟨.done, node⟩⟩ := by
  obtain ⟨linked, unused, fresh, iter⟩ := stored
  apply Ends.bind
  apply Ends.get
  apply Ends.bind
  apply Ends.modify
  rw [iter, if_pos rfl]
  exact Ends.pure ⟨rfl, linked, unused, fresh, rfl⟩

/-- A reset is a step from another event. -/
theorem cmarkIterReset_ends {iter : Iter} {ev : EventType}
    {post : Memory → Prop} (stored : Stored m shape k iter)
    (steps : ∀ m' : Memory, Stored m' shape k ⟨iter.root, iter.cur, ⟨ev, some n⟩⟩ →
      cmarkIterNext.Ends m' fun _ m'' => post m'') :
    (cmarkIterReset n ev).Ends m fun _ m' => post m' := by
  obtain ⟨linked, unused, fresh, rfl⟩ := stored
  apply Ends.bind
  apply Ends.modify
  apply Ends.bind
  refine Ends.mono (steps _ ⟨linked, unused, fresh, ?_⟩) ?_
  · rfl
  · intro _ _ holds
    exact Ends.pure holds

end Next

/-! ## Loops over the events -/

/-- The loop of each pass: the next event, and what is done at it. -/
def eachEvent (handle : EventType → Program Memory Unit) : Program Memory Unit :=
  .loop (fun _ => do
    let event ← cmarkIterNext
    if event = .done then pure (.inr ())
    else do
      handle event
      pure (.inl ())) ()

/-- A label may stand below another. -/
def Content.Allows (above content : Content) : Prop :=
  mayContain above.type content.type = true

/-- A leaf contains nothing. -/
theorem mayContain_of_isLeaf {node child : NodeType} (leaf : node.isLeaf = true) :
    mayContain node child = false := by
  unfold mayContain
  split_ifs
  · rfl
  · cases node <;> first | rfl | cases leaf

theorem eq_nil_of_isLeaf {content : Content} {kids : Forest Ref Content}
    (legal : Forest.Legal Content.Allows content kids) (leaf : content.type.isLeaf = true) :
    kids = .nil := by
  cases kids with
  | nil => rfl
  | cons c below kids rest =>
      obtain ⟨allowed, -⟩ := legal
      rw [Content.Allows, mayContain_of_isLeaf leaf] at allowed
      cases allowed

/-- Where a tree stands. -/
structure Site (shape : Shape Ref Content) (p : Ref) (above : Content) (before after : List Ref)
    (n : Ref) (content : Content) (kids : Forest Ref Content) : Prop where
  place : shape.kids p = before ++ n :: after
  parent : shape.label p = some above
  spans : Forest.Spans shape (.cons n content kids .nil)
  legal : Forest.Legal Content.Allows above (.cons n content kids .nil)
  nodup : (Forest.cons n content kids .nil).ids.Nodup
  outside : p ∉ (Forest.cons n content kids .nil).ids

theorem Site.label {shape : Shape Ref Content} {p n : Ref} {above content : Content}
    {before after : List Ref} {kids : Forest Ref Content}
    (site : Site shape p above before after n content kids) : shape.label n = some content :=
  site.spans.2.1

theorem Site.allowed {shape : Shape Ref Content} {p n : Ref} {above content : Content}
    {before after : List Ref} {kids : Forest Ref Content}
    (site : Site shape p above before after n content kids) :
    mayContain above.type content.type = true := site.legal.1

/-- A tree stays where it is. -/
theorem Site.kept {shape : Shape Ref Content} {k p n : ℕ} {above content : Content}
    {before after : List Ref} {kids : Forest Ref Content}
    (site : Site shape p above before after n content kids) :
    Forest.Replaced shape shape k p before after (.cons n content kids .nil)
      (.cons n content kids .nil) :=
  ⟨by simpa using site.place, rfl, site.spans, fun _ _ _ _ => ⟨rfl, rfl⟩⟩

/-- **What is done at an event** does nothing when a node is entered that has children to come, nor
at the end of the document. When a node is left, it is replaced, with what is below it, by
other trees, and the iterator goes on behind it. -/
structure Handles (handle : EventType → Program Memory Unit)
    (replace : Ref → Content → Forest Ref Content → ℕ → Forest Ref Content × ℕ) : Prop where
  fresh : Forest.FreshIds replace
  legal : ∀ above n content kids k, Content.Allows above content →
    Forest.Legal Content.Allows content kids →
    Forest.Legal Content.Allows above (replace n content kids k).1
  opening : ∀ {m shape k root n next content},
    Stored m shape k ⟨root, ⟨.enter, some n⟩, next⟩ → shape.label n = some content →
    content.type.isLeaf = false → (handle .enter).Ends m fun _ m' => m' = m
  ending : ∀ {m shape k root next content},
    Stored m shape k ⟨root, ⟨.exit, some root⟩, next⟩ → shape.label root = some content →
    content.type = .document → (handle .exit).Ends m fun _ m' => m' = m
  closing : ∀ {m shape k root n p content above kids before after},
    Stored m shape k ⟨root, ⟨lastEvent content.type, some n⟩, firstEvent after p⟩ →
    n ≠ root → root < k → Site shape p above before after n content kids →
    (handle (lastEvent content.type)).Ends m fun _ m' => ∃ shape' cur,
      Stored m' shape' (replace n content kids k).2 ⟨root, cur, firstEvent after p⟩ ∧
      Forest.Replaced shape shape' k p before after (.cons n content kids .nil)
        (replace n content kids k).1

section Walk

variable {handle : EventType → Program Memory Unit}
  {replace : Ref → Content → Forest Ref Content → ℕ → Forest Ref Content × ℕ}
  {m : Memory} {root : Ref} {content : Content} {forest : Forest Ref Content} {k : ℕ}

/-- A round of the loop. -/
theorem eachEvent_round {post : Unit → Memory → Prop} {ev : EventType}
    (notDone : ev ≠ .done)
    (steps : cmarkIterNext.Ends m fun result m' => result = ev ∧
      (handle ev).Ends m' fun _ m'' => (eachEvent handle).Ends m'' post) :
    (eachEvent handle).Ends m post := by
  apply Ends.loop
  apply Ends.bind
  refine steps.mono ?_
  rintro _ m' ⟨rfl, handled⟩
  rw [if_neg notDone]
  apply Ends.bind
  refine handled.mono ?_
  intro _ _ holds
  exact Ends.pure holds

/-- A tree stands where it stood when what is below its root is rewritten. -/
theorem Handles.site (handles : Handles handle replace) {shape shape₁ : Shape Ref Content}
    {p n : Ref} {above content : Content} {before after : List Ref} {kids : Forest Ref Content}
    (site : Site shape p above before after n content kids)
    (small : ∀ i ∈ (Forest.cons n content kids .nil).ids, i < k) (smallParent : p < k)
    (replaced : Forest.Replaced shape shape₁ k n [] [] kids (Forest.rewrite replace kids k).1) :
    Site shape₁ p above before after n content (Forest.rewrite replace kids k).1 := by
  have nodup := site.nodup
  have outside := site.outside
  simp only [Forest.ids_cons, Forest.ids_nil, List.append_nil, List.nodup_cons, List.mem_cons,
    not_or] at nodup outside small
  obtain ⟨notBelow, nodupKids⟩ := nodup
  obtain ⟨notSelf, outsideKids⟩ := outside
  obtain ⟨kidsFrame, labelFrame⟩ := replaced.frame p smallParent outsideKids notSelf
  refine ⟨kidsFrame.trans site.place, labelFrame.trans site.parent,
    ⟨?_, replaced.parent.trans site.label, replaced.spans, trivial⟩,
    ⟨site.allowed, site.legal.2.1.rewrite handles.legal k, trivial⟩, ?_, ?_⟩
  · rw [replaced.kids, List.nil_append, List.append_nil]
  · simpa using ⟨handles.fresh.not_mem_rewrite (small n (.inl rfl)) notBelow,
      handles.fresh.nodup_rewrite nodupKids fun i member => small i (.inr member)⟩
  · simpa using ⟨notSelf, handles.fresh.not_mem_rewrite smallParent outsideKids⟩

/-- **The loop goes through a forest.** It comes out behind it, and the forest is rewritten. The
induction is on the forest: for a tree, its children, its root and the trees beside it. -/
theorem eachEvent_forest (handles : Handles handle replace) {post : Unit → Memory → Prop}
    (forest : Forest Ref Content) {shape : Shape Ref Content} {p : Ref}
    {old : IterState} {above : Content} {before after : List Ref}
    (stored : Stored m shape k ⟨root, old, firstEvent (forest.roots ++ after) p⟩)
    (place : shape.kids p = before ++ (forest.roots ++ after))
    (parent : shape.label p = some above) (spans : Forest.Spans shape forest)
    (legal : Forest.Legal Content.Allows above forest) (nodup : forest.ids.Nodup)
    (outside : p ∉ forest.ids) (notRoot : root ∉ forest.ids) (rootOld : root < k)
    (later : ∀ m' shape' cur,
      Stored m' shape' (Forest.rewrite replace forest k).2 ⟨root, cur, firstEvent after p⟩ →
      Forest.Replaced shape shape' k p before after forest (Forest.rewrite replace forest k).1 →
      (eachEvent handle).Ends m' post) :
    (eachEvent handle).Ends m post := by
  induction forest generalizing m shape k p old above before after with
  | nil =>
      refine later m shape old stored ⟨?_, rfl, trivial, fun _ _ _ _ => ⟨rfl, rfl⟩⟩
      rw [place, List.append_assoc]
      rfl
  | cons n content kids rest ihKids ihRest =>
      have small (i : Ref) (member : i ∈ (Forest.cons n content kids rest).ids) : i < k :=
        stored.lt_of_spans spans member
      have smallParent : p < k := stored.lt_of_label parent
      have distinct := nodup
      have apart := outside
      have notRootApart := notRoot
      simp only [Forest.ids_cons, List.nodup_cons, List.mem_cons, List.mem_append, not_or,
        List.nodup_append] at distinct apart notRootApart
      obtain ⟨⟨notBelow, notBeside⟩, nodupKids, nodupRest, disjoint⟩ := distinct
      obtain ⟨notSelf, outsideKids, outsideRest⟩ := apart
      obtain ⟨notRootSelf, notRootKids, notRootRest⟩ := notRootApart
      obtain ⟨children, label, spansKids, spansRest⟩ := spans
      obtain ⟨allowed, legalKids, legalRest⟩ := legal
      have smallTree (i : Ref) (member : i ∈ (Forest.cons n content kids .nil).ids) : i < k := by
        rw [Forest.ids_cons, Forest.ids_nil, List.append_nil] at member
        refine small i ?_
        rw [Forest.ids_cons]
        exact List.cons_subset_cons n (List.subset_append_left _ _) member
      have smallRest (i : Ref) (member : i ∈ rest.ids) : i < k := stored.lt_of_spans spansRest member
      have site₀ : Site shape p above before (rest.roots ++ after) n content kids :=
        ⟨place, parent, ⟨children, label, spansKids, trivial⟩, ⟨allowed, legalKids, trivial⟩,
          by simpa using ⟨notBelow, nodupKids⟩, by simpa using ⟨notSelf, outsideKids⟩⟩
      have grows := handles.fresh.le_rewrite kids k
      -- The node is left when what is below it is rewritten.
      have leave {m₁ : Memory} {shape₁ : Shape Ref Content} {cur : IterState}
          (stored₁ : Stored m₁ shape₁ (Forest.rewrite replace kids k).2
            ⟨root, cur, ⟨lastEvent content.type, some n⟩⟩)
          (first : Forest.Replaced shape shape₁ k n [] [] kids (Forest.rewrite replace kids k).1) :
          (eachEvent handle).Ends m₁ post := by
        have notDone : lastEvent content.type ≠ .done := by
          unfold lastEvent
          split_ifs <;> simp
        have site := handles.site site₀ smallTree smallParent first
        apply eachEvent_round notDone
        refine (cmarkIterNext_leave stored₁ site.label site.place (Ne.symm notRootSelf)).mono ?_
        rintro _ m₂ ⟨rfl, stored₂⟩
        refine ⟨rfl, (handles.closing stored₂ (Ne.symm notRootSelf)
          (Nat.lt_of_lt_of_le rootOld grows) site).mono ?_⟩
        rintro _ m₃ ⟨shape₂, cur₂, stored₃, second⟩
        have spansRest₁ : Forest.Spans shape₁ rest := by
          refine first.spans_of_apart spansRest smallRest ?_ notBeside
          exact fun i member inKids => disjoint i inKids i member rfl
        have spansRest₂ : Forest.Spans shape₂ rest := by
          refine second.spans_of_apart spansRest₁
            (fun i member => Nat.lt_of_lt_of_le (smallRest i member) grows) ?_ outsideRest
          intro i member inTree
          simp only [Forest.ids_cons, Forest.ids_nil, List.append_nil, List.mem_cons] at inTree
          rcases inTree with rfl | inBelow
          · exact notBeside member
          · exact handles.fresh.not_mem_rewrite (smallRest i member)
              (fun inKids => disjoint i inKids i member rfl) inBelow
        refine ihRest stored₃ second.kids (second.parent.trans site.parent) spansRest₂
          legalRest nodupRest outsideRest notRootRest
          (Nat.lt_of_lt_of_le rootOld (Nat.le_trans grows (handles.fresh.le n content _ _))) ?_
        intro m₄ shape₃ cur₃ stored₄ third
        exact later m₄ shape₃ cur₃ stored₄
          (Forest.Replaced.cons handles.fresh nodup small smallParent outside first second third)
      cases leaf : content.type.isLeaf with
      | true =>
          have none := eq_nil_of_isLeaf legalKids leaf
          subst none
          have same : lastEvent content.type = .enter := if_pos leaf
          refine @leave m shape old ?_ ⟨children, rfl, trivial, fun _ _ _ _ => ⟨rfl, rfl⟩⟩
          rw [same]
          exact stored
      | false =>
          have same : lastEvent content.type = .exit := if_neg (by simp [leaf])
          apply eachEvent_round (by simp : EventType.enter ≠ .done)
          refine (cmarkIterNext_enter stored label leaf).mono ?_
          rintro _ m₁ ⟨rfl, stored₁⟩
          refine ⟨rfl, (handles.opening stored₁ label leaf).mono ?_⟩
          rintro _ _ rfl
          refine @ihKids _ k shape n ⟨.enter, some n⟩ content [] [] ?_ ?_ label spansKids legalKids
            nodupKids notBelow notRootKids rootOld ?_
          · rw [List.append_nil, ← children]
            exact stored₁
          · rw [List.append_nil, List.nil_append, children]
          · intro m₂ shape₁ cur stored₂ first
            refine @leave m₂ shape₁ cur ?_ first
            rw [same]
            exact stored₂

/-! ## Whole documents -/

/-- **The memory holds a document**: a root of type document, and below it a forest in which each
node may stand where it does. Other nodes may be there too. -/
structure Document (m : Memory) (root : Ref) (content : Content) (forest : Forest Ref Content)
    (k : ℕ) : Prop where
  stored : ∃ shape, Stored m shape k m.iter ∧ shape.label root = some content ∧
    shape.kids root = forest.roots ∧ Forest.Spans shape forest
  type : content.type = .document
  legal : Forest.Legal Content.Allows content forest
  nodup : (root :: forest.ids).Nodup

theorem Document.lt (document : Document m root content forest k) {i : Ref}
    (member : i ∈ forest.ids) : i < k := by
  obtain ⟨shape, stored, -, -, spans⟩ := document.stored
  exact stored.lt_of_spans spans member

/-- **A loop over the events of a document ends**, and the document is rewritten. -/
theorem eachEvent_document (handles : Handles handle replace)
    (document : Document m root content forest k) (sameRoot : m.iter.root = root) :
    (cmarkIterReset root .enter >>= fun _ => eachEvent handle).Ends m fun _ m' =>
      Document m' root content (Forest.rewrite replace forest k).1
        (Forest.rewrite replace forest k).2 ∧ m'.iter.root = root := by
  have small (i : Ref) (member : i ∈ forest.ids) : i < k := document.lt member
  obtain ⟨⟨shape, stored, label, children, spans⟩, type, legal, nodup⟩ := document
  obtain ⟨notRoot, distinct⟩ := List.nodup_cons.mp nodup
  have inner : content.type.isLeaf = false := by
    rw [type]
    rfl
  apply Ends.bind
  apply cmarkIterReset_ends stored
  rw [sameRoot]
  intro m₁ stored₁
  refine (cmarkIterNext_enter stored₁ label inner).mono ?_
  rintro _ m₂ ⟨-, stored₂⟩
  have place : shape.kids root = [] ++ (forest.roots ++ []) := by
    rw [List.append_nil, List.nil_append, children]
  rw [children, ← List.append_nil forest.roots] at stored₂
  refine eachEvent_forest handles forest stored₂ place label spans legal distinct notRoot notRoot
    (stored.lt_of_label label) ?_
  intro m₃ shape₃ cur₃ stored₃ replaced
  have label₃ : shape₃.label root = some content := replaced.parent.trans label
  have place₃ : shape₃.kids root = (Forest.rewrite replace forest k).1.roots := by
    rw [replaced.kids, List.nil_append, List.append_nil]
  have nodup₃ : (root :: (Forest.rewrite replace forest k).1.ids).Nodup :=
    List.nodup_cons.mpr ⟨handles.fresh.not_mem_rewrite (stored.lt_of_label label) notRoot,
      handles.fresh.nodup_rewrite distinct small⟩
  apply eachEvent_round (by simp : EventType.exit ≠ .done)
  refine (cmarkIterNext_root stored₃ label₃).mono ?_
  rintro _ m₄ ⟨rfl, stored₄⟩
  refine ⟨rfl, (handles.ending stored₄ label₃ type).mono ?_⟩
  rintro _ _ rfl
  apply Ends.loop
  apply Ends.bind
  refine (cmarkIterNext_done stored₄).mono ?_
  rintro _ m₅ ⟨rfl, stored₅⟩
  rw [if_pos rfl]
  apply Ends.pure
  refine ⟨⟨⟨shape₃, ?_, label₃, place₃, replaced.spans⟩, type, legal.rewrite handles.legal k,
    nodup₃⟩, ?_⟩
  · rw [stored₅.iter]
    exact stored₅
  · rw [stored₅.iter]

end Walk

end HashArchive.Cmark
