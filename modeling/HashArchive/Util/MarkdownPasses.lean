import HashArchive.Deps.CmarkBench
import HashArchive.Util.Markdown

/-!
# What the passes do

Each pass replaces nodes, and what it puts in the place of a node with what is below it is a function
(`escapeNode`, `escapeInlineNode`, `autolinkNode`, `blockNode`, `convertNode`). For each of them
it is shown that the body of the pass does so, wherever the node stands and whatever is in
memory (`Handles`).
-/

set_option autoImplicit false

namespace HashArchive.Markdown

open Cmark Program

/-! ## Superscripts -/

/-- The tree that `superscript` makes. -/
def superscriptTree (k : ℕ) (label title link : Str) : Forest Ref Content :=
  .cons k ⟨.customInline, [], [], [], true⟩
    (.cons (k + 2) ⟨.htmlInline, "<sup>[".toList, [], [], true⟩ .nil
      (.cons (k + 1) ⟨.link, [], link, title, true⟩
        (.cons (k + 4) ⟨.text, label, [], [], true⟩ .nil .nil)
        (.cons (k + 3) ⟨.htmlInline, "]</sup>".toList, [], [], true⟩ .nil .nil)))
    .nil

/-- The nodes of that tree, in the order in which they are made. -/
def superscriptEntries (k : ℕ) (label title link : Str) : List (Content × List Ref) :=
  [(⟨.customInline, [], [], [], true⟩, [k + 2, k + 1, k + 3]),
    (⟨.link, [], link, title, true⟩, [k + 4]),
    (⟨.htmlInline, "<sup>[".toList, [], [], true⟩, []),
    (⟨.htmlInline, "]</sup>".toList, [], [], true⟩, []),
    (⟨.text, label, [], [], true⟩, [])]

section Superscript

variable {m : Memory} {shape : Shape Ref Content} {k : ℕ} {iter : Iter} {label title link : Str}
  {above : Content}

/-- **`superscript`** puts its tree on the bench. -/
theorem superscript_ends (stored : Stored m shape k iter) {post : Ref → Memory → Prop}
    (holds : ∀ m', Bench m' shape k (superscriptEntries k label title link) iter → post k m') :
    (superscript label title link).Ends m post := by
  have loose (i : Ref) (new : k ≤ i) (q : Ref) : i ∉ shape.kids q :=
    stored.not_mem_kids (stored.label_eq_none new) q
  apply Ends.bind
  refine (Bench.start stored).new rfl fun m₁ b₁ => ?_
  apply Ends.bind
  refine b₁.new rfl fun m₂ b₂ => ?_
  apply Ends.bind
  refine b₂.setUrl rfl rfl fun _ m₃ b₃ => ?_
  apply Ends.bind
  refine b₃.setTitle rfl rfl fun _ m₄ b₄ => ?_
  apply Ends.bind
  refine b₄.new rfl fun m₅ b₅ => ?_
  apply Ends.bind
  refine b₅.setLiteral rfl rfl fun _ m₆ b₆ => ?_
  apply Ends.bind
  refine b₆.new rfl fun m₇ b₇ => ?_
  apply Ends.bind
  refine b₇.setLiteral rfl rfl fun _ m₈ b₈ => ?_
  apply Ends.bind
  refine b₈.new rfl fun m₉ b₉ => ?_
  apply Ends.bind
  refine b₉.setLiteral rfl rfl fun _ m₁₀ b₁₀ => ?_
  apply Ends.bind
  refine Bench.append (i := 1) (j := 4) b₁₀ (loose _ (by omega)) (loose _ (by omega)) rfl rfl
    (by simp) (by simp) rfl fun _ m₁₁ b₁₁ => ?_
  apply Ends.bind
  refine Bench.append (i := 0) (j := 2) b₁₁ (loose _ (by omega)) (loose _ (by omega)) rfl rfl
    (by simp) (by simp) rfl fun _ m₁₂ b₁₂ => ?_
  apply Ends.bind
  refine Bench.append (i := 0) (j := 1) b₁₂ (loose _ (by omega)) (loose _ (by omega)) rfl rfl
    (by simp) (by simp) rfl fun _ m₁₃ b₁₃ => ?_
  apply Ends.bind
  refine Bench.append (i := 0) (j := 3) b₁₃ (loose _ (by omega)) (loose _ (by omega)) rfl rfl
    (by simp) (by simp) rfl fun _ m₁₄ b₁₄ => ?_
  exact Ends.pure (holds m₁₄ b₁₄)

theorem ids_superscriptTree :
    (superscriptTree k label title link).ids = [k, k + 2, k + 1, k + 4, k + 3] := by
  simp [superscriptTree]

theorem bounds_of_mem_superscriptTree {i : Ref}
    (member : i ∈ (superscriptTree k label title link).ids) : k ≤ i ∧ i < k + 5 := by
  simp only [ids_superscriptTree, List.mem_cons, List.not_mem_nil, or_false] at member
  rcases member with rfl | rfl | rfl | rfl | rfl <;> simp

theorem nodup_superscriptTree : (superscriptTree k label title link).ids.Nodup := by
  simp [ids_superscriptTree]

theorem spans_superscriptTree :
    Forest.Spans (grow shape k (superscriptEntries k label title link))
      (superscriptTree k label title link) := by
  simp [superscriptTree, superscriptEntries, Forest.Spans]

theorem legal_superscriptTree (allowed : mayContain above.type .customInline = true) :
    Forest.Legal Content.Allows above (superscriptTree k label title link) :=
  ⟨allowed, ⟨rfl, trivial, rfl, ⟨rfl, trivial, trivial⟩, rfl, trivial, trivial⟩, trivial⟩

end Superscript

/-! ## A pass at some nodes -/

section AtNode

variable {wanted : EventType} {types : NodeType → Bool} {act : Ref → Program Memory Unit}
  {m : Memory} {shape : Shape Ref Content} {k : ℕ} {root n : Ref} {ev : EventType}
  {next : IterState} {content : Content}

/-- At a node of one of the types the pass does something. -/
theorem atNode_act (stored : Stored m shape k ⟨root, ⟨wanted, some n⟩, next⟩)
    (label : shape.label n = some content) (own : types content.type = true)
    {post : Unit → Memory → Prop} (acts : (act n).Ends m post) :
    (atNode wanted types act wanted).Ends m post := by
  unfold atNode
  rw [if_pos rfl]
  apply Ends.bind
  apply Ends.bind
  apply Ends.get
  apply Ends.pure
  rw [stored.iter]
  apply Ends.bind
  apply cmarkNodeGetType_ends stored label
  rw [if_pos own]
  exact acts

/-- Elsewhere it does nothing. -/
theorem atNode_skip (stored : Stored m shape k ⟨root, ⟨ev, some n⟩, next⟩)
    (label : shape.label n = some content) (skips : ev = wanted → types content.type = false) :
    (atNode wanted types act ev).Ends m fun _ m' => m' = m := by
  unfold atNode
  split_ifs with here
  · apply Ends.bind
    apply Ends.bind
    apply Ends.get
    apply Ends.pure
    rw [stored.iter]
    apply Ends.bind
    apply cmarkNodeGetType_ends stored label
    rw [if_neg (by simp [skips here])]
    exact Ends.pure rfl
  · exact Ends.pure rfl

variable {replace : Ref → Content → Forest Ref Content → ℕ → Forest Ref Content × ℕ}

/-- **What is done at an event**, from what is done at the nodes of the types. -/
theorem handles_atNode (fresh : Forest.FreshIds replace)
    (legal : ∀ above n content kids k, Content.Allows above content →
      Forest.Legal Content.Allows content kids →
      Forest.Legal Content.Allows above (replace n content kids k).1)
    (leaves : ∀ type, types type = true → lastEvent type = wanted)
    (notDocument : types .document = false)
    (others : ∀ n content kids k, types content.type = false →
      replace n content kids k = (.cons n content kids .nil, k))
    (acts : ∀ {m shape k root n p content above kids before after}, types content.type = true →
      Stored m shape k ⟨root, ⟨wanted, some n⟩, firstEvent after p⟩ → root < k →
      Site shape p above before after n content kids →
      (act n).Ends m fun _ m' => ∃ shape' cur,
        Stored m' shape' (replace n content kids k).2 ⟨root, cur, firstEvent after p⟩ ∧
        Forest.Replaced shape shape' k p before after (.cons n content kids .nil)
          (replace n content kids k).1) : Handles (atNode wanted types act) replace where
  fresh := fresh
  legal := legal
  opening {m shape k root n next content} stored label inner := by
    refine atNode_skip stored label fun here => ?_
    by_contra own
    have last := leaves content.type (by simpa using own)
    rw [lastEvent, if_neg (by simp [inner]), ← here] at last
    cases last
  ending {m shape k root next content} stored label type :=
    atNode_skip stored label fun _ => type ▸ notDocument
  closing {m shape k root n p content above kids before after} stored _ rootOld site := by
    cases own : types content.type with
    | true =>
        rw [leaves _ own] at stored ⊢
        exact atNode_act stored site.spans.2.1 own (acts own stored rootOld site)
    | false =>
        refine (atNode_skip stored site.spans.2.1 fun _ => own).mono ?_
        rintro _ _ rfl
        rw [others n content kids k own]
        exact ⟨shape, _, stored, site.kept⟩

end AtNode

/-! ## What may stand where -/

/-- Where one node may stand, another of its kind may, too. -/
theorem mayContain_congr {node child other : NodeType} (inline : child.isInline = other.isInline)
    (ordinary : child ≠ .document ∧ child ≠ .item) (ordinary' : other ≠ .document ∧ other ≠ .item) :
    mayContain node child = mayContain node other := by
  have notItem : (child == .item) = false := beq_false_of_ne ordinary.2
  have notItem' : (other == .item) = false := beq_false_of_ne ordinary'.2
  unfold mayContain
  rw [if_neg ordinary.1, if_neg ordinary'.1]
  cases node <;> simp [NodeType.isBlock, bne, inline, notItem, notItem']

section Replaced

variable {m : Memory} {shape s : Shape Ref Content} {k k' p n : ℕ} {iter : Iter}
  {above content : Content} {before after : List Ref} {kids old new : Forest Ref Content}

/-- A node without children is freed when other trees stand before it. -/
theorem cmarkNodeFree_replaced (stored : Stored m s k' iter)
    (site : Site shape p above before after n content kids) (small : n < k) (smallParent : p < k)
    (replaced : Forest.Replaced shape s k p before (n :: after) old new)
    (fewer : old.ids ⊆ n :: kids.ids) (alone : s.kids n = []) (large : ∀ i ∈ new.ids, i ∈ kids.ids ∨ k ≤ i) :
    (cmarkNodeFree n).Ends m fun _ m' => ∃ shape', Stored m' shape' k' iter ∧
      Forest.Replaced shape shape' k p before after (.cons n content kids .nil) new := by
  have nodup := site.nodup
  have outside := site.outside
  simp only [Forest.ids_cons, Forest.ids_nil, List.append_nil, List.nodup_cons, List.mem_cons,
    not_or] at nodup outside
  refine (cmarkNodeFree_ends stored replaced.kids alone).mono fun _ m' freed => ?_
  refine ⟨_, freed, replaced.remove fewer outside.1 (fun member => ?_) fun member => ?_⟩
  · exact (large n member).elim nodup.1 fun new => absurd small (Nat.not_lt.mpr new)
  · exact (large p member).elim outside.2 fun new => absurd smallParent (Nat.not_lt.mpr new)

/-- A leaf is freed when trees from the bench stand before it. -/
theorem cmarkNodeFree_bench {entries : List (Content × List Ref)}
    (bench : Bench m (shape.setKids p (before ++ (new.roots ++ n :: after))) k entries iter)
    (site : Site shape p above before after n content .nil) (small : n < k) (smallParent : p < k)
    (spans : Forest.Spans (grow shape k entries) new) (large : ∀ i ∈ new.ids, k ≤ i) :
    (cmarkNodeFree n).Ends m fun _ m' => ∃ shape', Stored m' shape' (k + entries.length) iter ∧
      Forest.Replaced shape shape' k p before after (.cons n content .nil .nil) new := by
  have other : n ≠ p := fun same => site.outside (by simp [same])
  have replaced := @replaced_grow shape k entries p before (n :: after) new smallParent spans
    fun member => absurd smallParent (Nat.not_lt.mpr (large p member))
  rw [← List.append_assoc] at bench
  refine cmarkNodeFree_replaced bench site small smallParent replaced (by simp) ?_
    fun i member => .inr (large i member)
  rw [(replaced.frame n small List.not_mem_nil other).1]
  exact site.spans.1

end Replaced

/-! ## Escaping -/

/-- A text. -/
def textTree (k : ℕ) (literal : Str) : Forest Ref Content :=
  .cons k ⟨.text, literal, [], [], false⟩ .nil .nil

@[simp] theorem ids_textTree (k : ℕ) (literal : Str) : (textTree k literal).ids = [k] := rfl

/-- A text in a paragraph. -/
def paragraphTree (k : ℕ) (literal : Str) : Forest Ref Content :=
  .cons k ⟨.paragraph, [], [], [], false⟩ (textTree (k + 1) literal) .nil

/-- What `md_escape` puts in the place of a block of HTML. -/
def escapeNode (n : Ref) (content : Content) (kids : Forest Ref Content) (k : ℕ) :
    Forest Ref Content × ℕ :=
  if content.type = .htmlBlock then (paragraphTree k content.literal, k + 2)
  else (.cons n content kids .nil, k)

/-- What `md_escape_inline` puts in the place of HTML in a line. -/
def escapeInlineNode (n : Ref) (content : Content) (kids : Forest Ref Content) (k : ℕ) :
    Forest Ref Content × ℕ :=
  if content.type = .htmlInline then (textTree k content.literal, k + 1)
  else (.cons n content kids .nil, k)

section Escape

variable {m : Memory} {shape : Shape Ref Content} {k p n : ℕ} {iter : Iter}
  {above content : Content} {before after : List Ref} {kids : Forest Ref Content}

/-- **A block of HTML is replaced** by a paragraph with its text. -/
theorem mdEscapeNode_ends (stored : Stored m shape k iter) (html : content.type = .htmlBlock)
    (site : Site shape p above before after n content kids) :
    (mdEscapeNode n).Ends m fun _ m' => ∃ shape',
      Stored m' shape' (escapeNode n content kids k).2 iter ∧
        Forest.Replaced shape shape' k p before after (.cons n content kids .nil)
          (escapeNode n content kids k).1 := by
  cases eq_nil_of_isLeaf site.legal.2.1 (by rw [html]; rfl)
  have smallParent := stored.lt_of_label site.parent
  have allowed : mayContain above.type .paragraph = true := by
    rw [← site.allowed]
    exact mayContain_congr (by rw [html]; rfl) (by simp) (by rw [html]; simp)
  have loose (j : ℕ) (q : Ref) : k + j ∉ shape.kids q :=
    stored.not_mem_kids (stored.label_eq_none (Nat.le_add_right k j)) q
  rw [escapeNode, if_pos html]
  apply Ends.bind
  apply cmarkNodeGetLiteral_ends stored site.label (by rw [html]; rfl)
  apply Ends.bind
  refine (Bench.start stored).new rfl fun m₁ b₁ => ?_
  apply Ends.bind
  refine b₁.new rfl fun m₂ b₂ => ?_
  apply Ends.bind
  refine b₂.setLiteral rfl rfl fun _ m₃ b₃ => ?_
  apply Ends.bind
  refine Bench.append (i := 0) (j := 1) b₃ (loose 1) (loose 0) rfl rfl (by simp) (by simp) rfl
    fun _ m₄ b₄ => ?_
  apply Ends.bind
  refine Bench.insertBefore (j := 0) b₄ ⟨site.parent, smallParent, ⟨_, _, rfl, allowed⟩, loose 0,
    by simp, not_below_grow smallParent (by simp)⟩ site.place fun _ m₅ b₅ => ?_
  have bench : Bench m₅
      (shape.setKids p (before ++ ((paragraphTree k content.literal).roots ++ n :: after))) k
      [(⟨.paragraph, [], [], [], false⟩, [k + 1]), (⟨.text, content.literal, [], [], false⟩, [])]
      iter := b₅
  refine cmarkNodeFree_bench bench site (stored.lt_of_label site.label) smallParent ?_ ?_
  · simp [paragraphTree, textTree, Forest.Spans]
  · simp [paragraphTree]

/-- **HTML in a line is replaced** by its text. -/
theorem mdEscapeInlineNode_ends (stored : Stored m shape k iter)
    (html : content.type = .htmlInline)
    (site : Site shape p above before after n content kids) :
    (mdEscapeInlineNode n).Ends m fun _ m' => ∃ shape',
      Stored m' shape' (escapeInlineNode n content kids k).2 iter ∧
        Forest.Replaced shape shape' k p before after (.cons n content kids .nil)
          (escapeInlineNode n content kids k).1 := by
  cases eq_nil_of_isLeaf site.legal.2.1 (by rw [html]; rfl)
  have smallParent := stored.lt_of_label site.parent
  have allowed : mayContain above.type .text = true := by
    rw [← site.allowed]
    exact mayContain_congr (by rw [html]; rfl) (by simp) (by rw [html]; simp)
  have loose (j : ℕ) (q : Ref) : k + j ∉ shape.kids q :=
    stored.not_mem_kids (stored.label_eq_none (Nat.le_add_right k j)) q
  rw [escapeInlineNode, if_pos html]
  apply Ends.bind
  apply cmarkNodeGetLiteral_ends stored site.label (by rw [html]; rfl)
  apply Ends.bind
  refine (Bench.start stored).new rfl fun m₁ b₁ => ?_
  apply Ends.bind
  refine b₁.setLiteral rfl rfl fun _ m₂ b₂ => ?_
  apply Ends.bind
  refine Bench.insertBefore (j := 0) b₂ ⟨site.parent, smallParent, ⟨_, _, rfl, allowed⟩, loose 0,
    by simp, not_below_grow smallParent (by simp)⟩ site.place fun _ m₃ b₃ => ?_
  have bench : Bench m₃
      (shape.setKids p (before ++ ((textTree k content.literal).roots ++ n :: after))) k
      [(⟨.text, content.literal, [], [], false⟩, [])] iter := b₃
  refine cmarkNodeFree_bench bench site (stored.lt_of_label site.label) smallParent ?_ ?_
  · simp [textTree, Forest.Spans]
  · simp

end Escape

theorem handles_mdEscape : Handles (atNode .enter (· == .htmlBlock) mdEscapeNode) escapeNode := by
  refine handles_atNode ?_ ?_ ?_ rfl ?_ ?_
  · refine (Forest.FreshIds.of_new ?_ ?_ ?_).ite fun content : Content => content.type = .htmlBlock
    · intro n content kids k
      exact Nat.le_add_right k 2
    · intro n content kids k
      simp [paragraphTree]
    · intro n content kids k
      simp [paragraphTree]
  · intro above n content kids k allowed legal
    unfold escapeNode
    split_ifs with html
    · rw [Content.Allows, html] at allowed
      refine ⟨?_, ⟨rfl, trivial, trivial⟩, trivial⟩
      rw [Content.Allows, ← allowed]
      exact mayContain_congr rfl (by simp) (by simp)
    · exact ⟨allowed, legal, trivial⟩
  · intro type own
    rw [eq_of_beq own]
    rfl
  · intro n content kids k other
    exact if_neg (by simpa using other)
  · intro m shape k root n p content above kids before after own stored _ site
    refine (mdEscapeNode_ends stored (eq_of_beq own) site).mono ?_
    rintro _ m' ⟨shape', stored', replaced⟩
    exact ⟨shape', _, stored', replaced⟩

theorem handles_mdEscapeInline :
    Handles (atNode .enter (· == .htmlInline) mdEscapeInlineNode) escapeInlineNode := by
  refine handles_atNode ?_ ?_ ?_ rfl ?_ ?_
  · refine (Forest.FreshIds.of_new ?_ ?_ ?_).ite fun content : Content => content.type = .htmlInline
    · intro n content kids k
      exact Nat.le_add_right k 1
    · intro n content kids k
      simp
    · intro n content kids k
      simp
  · intro above n content kids k allowed legal
    unfold escapeInlineNode
    split_ifs with html
    · rw [Content.Allows, html] at allowed
      refine ⟨?_, trivial, trivial⟩
      rw [Content.Allows, ← allowed]
      exact mayContain_congr rfl (by simp) (by simp)
    · exact ⟨allowed, legal, trivial⟩
  · intro type own
    rw [eq_of_beq own]
    rfl
  · intro n content kids k other
    exact if_neg (by simpa using other)
  · intro m shape k root n p content above kids before after own stored _ site
    refine (mdEscapeInlineNode_ends stored (eq_of_beq own) site).mono ?_
    rintro _ m' ⟨shape', stored', replaced⟩
    exact ⟨shape', _, stored', replaced⟩

end HashArchive.Markdown
