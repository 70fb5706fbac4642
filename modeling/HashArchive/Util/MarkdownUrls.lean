import HashArchive.Util.MarkdownPasses

/-!
# Images and hashes

`md_block_external_images` moves the children of an image below a new link, one by one, and
`md_convert_hashes` puts a superscript behind a link or an image and tells the iterator to go on
behind that.
-/

set_option autoImplicit false

namespace HashArchive.Markdown

open Cmark Program

/-! ## Images -/

section Images

/-- The text behind what was in an image. -/
def externalImage (kids : Forest Ref Content) : Str :=
  if kids.roots.head?.isSome then " (external image)".toList else "(external image)".toList

/-- The link in the place of an image, and what was in the image below it. -/
def imageTree (k : ℕ) (url : Str) (kids : Forest Ref Content) : Forest Ref Content :=
  .cons k ⟨.link, [], url, [], false⟩ (kids ++ textTree (k + 1) (externalImage kids)) .nil

theorem mem_ids_imageTree {k i : ℕ} {url : Str} {kids : Forest Ref Content} :
    i ∈ (imageTree k url kids).ids ↔ i = k ∨ i ∈ kids.ids ∨ i = k + 1 := by
  simp [imageTree]

/-- What `md_block_external_images` puts in the place of an image. -/
def blockNode (n : Ref) (content : Content) (kids : Forest Ref Content) (k : ℕ) :
    Forest Ref Content × ℕ :=
  if content.type = .image ∧ isInternal (some content.url) = false then
    (imageTree k content.url kids, k + 2)
  else (.cons n content kids .nil, k)

variable {m : Memory} {shape : Shape Ref Content} {k n : ℕ} {iter : Iter}
  {content link text : Content}

/-- **The children of an image are moved** below the link, one after the other. -/
theorem mdMoveChild_ends (label : shape.label n = some content) (small : n < k)
    (type : link.type = .link) {remaining moved : List Ref}
    (bench : Bench m (shape.setKids n remaining) k [(link, moved), (text, [])] iter)
    (loose : ∀ q, k ∉ shape.kids q) (movedOld : ∀ c ∈ moved, c < k)
    (fit : ∀ c ∈ remaining, c < k ∧ ∃ inner, shape.label c = some inner ∧
      mayContain .link inner.type = true) :
    (Program.loop (mdMoveChild n k) ()).Ends m fun _ m' =>
      Bench m' (shape.setKids n []) k [(link, moved ++ remaining), (text, [])] iter := by
  induction remaining generalizing m moved with
  | nil =>
      apply Ends.loop
      apply Ends.bind
      apply cmarkNodeFirstChild_ends bench ((label_grow_of_lt small).trans label)
      rw [kids_grow_of_lt small, Shape.kids_setKids, if_pos rfl, List.append_nil]
      exact Ends.pure bench
  | cons c remaining ih =>
      rw [List.forall_mem_cons] at fit
      obtain ⟨⟨old, inner, labelChild, allowed⟩, fitRest⟩ := fit
      apply Ends.loop
      apply Ends.bind
      apply cmarkNodeFirstChild_ends bench ((label_grow_of_lt small).trans label)
      rw [kids_grow_of_lt small, Shape.kids_setKids, if_pos rfl]
      have looseNow : ∀ q, k + 0 ∉ (grow (shape.setKids n (c :: remaining)) k
          [(link, moved), (text, [])]).kids q := by
        refine loose_grow (fun q inList => ?_) ?_
        · rw [Shape.kids_setKids] at inList
          split_ifs at inList
          · rcases List.mem_cons.mp inList with same | inRest
            · exact absurd old (Nat.not_lt.mpr (Nat.le_of_eq same))
            · exact absurd (fitRest _ inRest).1 (Nat.lt_irrefl k)
          · exact loose q inList
        · have notMoved : k ∉ moved := fun inMoved => Nat.lt_irrefl k (movedOld k inMoved)
          simp [notMoved]
      have placed := @cmarkNodeAppendChild_placed m _ _ iter k c remaining link inner moved n bench
        (by rw [kids_grow_of_lt small]; simp) (Nat.ne_of_lt small) (by simp) (by simp)
        ((label_grow_of_lt old).trans labelChild)
        (not_below_of_loose looseNow (Nat.ne_of_lt old)) (by rw [type]; exact allowed)
      apply Ends.bind
      refine placed.mono ?_
      rintro _ m' ⟨-, stored⟩
      apply Ends.pure
      have next : Bench m' (shape.setKids n remaining) k [(link, moved ++ [c]), (text, [])] iter := by
        rw [grow_setKids_of_lt small, Shape.setKids_setKids] at stored
        exact @Bench.setKids _ _ k [(link, moved), (text, [])] iter 0 link moved rfl _ stored
      have result := ih next (List.forall_mem_append.mpr ⟨movedOld, by simpa using old⟩) fitRest
      rwa [List.append_assoc] at result

/-- The children of an image may stand below a link. -/
theorem fits_of_site {p : Ref} {above : Content} {before after : List Ref}
    {kids : Forest Ref Content} (stored : Stored m shape k iter) (type : content.type = .image)
    (site : Site shape p above before after n content kids) {c : Ref} (member : c ∈ kids.roots) :
    c < k ∧ ∃ inner, shape.label c = some inner ∧ mayContain .link inner.type = true := by
  have legal := site.legal.2.1
  have spans := site.spans.2.2.1
  refine ⟨stored.lt_of_spans spans (kids.roots_subset_ids member), ?_⟩
  clear site
  induction kids with
  | nil => cases member
  | cons d inner below rest _ ih =>
      rcases List.mem_cons.mp member with rfl | inRest
      · refine ⟨inner, spans.2.1, ?_⟩
        have allowed : mayContain content.type inner.type = true := legal.1
        rwa [type] at allowed
      · exact ih inRest legal.2.2 spans.2.2.2

theorem spans_imageTree {p : Ref} {above : Content} {before after : List Ref}
    {kids : Forest Ref Content} (stored : Stored m shape k iter) (url : Str)
    (site : Site shape p above before after n content kids) :
    Forest.Spans (grow (shape.setKids n []) k [(⟨.link, [], url, [], false⟩, kids.roots ++ [k + 1]),
      (⟨.text, externalImage kids, [], [], false⟩, [])]) (imageTree k url kids) := by
  have spans := site.spans.2.2.1
  have nodup := site.nodup
  rw [Forest.ids_cons, List.nodup_cons, Forest.ids_nil, List.append_nil] at nodup
  refine ⟨?_, ?_, Forest.spans_append.mpr ⟨spans.congr fun i member => ?_, ?_, ?_, trivial, trivial⟩,
    trivial⟩
  · simp [textTree]
  · simp
  · have old := stored.lt_of_spans spans member
    have other : i ≠ n := fun same => nodup.1 (same ▸ member)
    rw [kids_grow_of_lt old, label_grow_of_lt old, Shape.kids_setKids, if_neg other]
    exact ⟨rfl, rfl⟩
  · simp
  · simp

/-- **An external image is replaced by a link.** -/
theorem mdBlockExternalImagesNode_ends {p : Ref} {above : Content} {before after : List Ref}
    {kids : Forest Ref Content} (stored : Stored m shape k iter) (type : content.type = .image)
    (site : Site shape p above before after n content kids) :
    (mdBlockExternalImagesNode n).Ends m fun _ m' => ∃ shape',
      Stored m' shape' (blockNode n content kids k).2 iter ∧
        Forest.Replaced shape shape' k p before after (.cons n content kids .nil)
          (blockNode n content kids k).1 := by
  rw [blockNode]
  apply Ends.bind
  apply cmarkNodeGetUrl_ends stored site.label (by rw [type]; rfl)
  by_cases internal : isInternal (some content.url) = true
  · rw [if_pos internal, if_neg (by simp [internal])]
    exact Ends.pure ⟨shape, stored, site.kept⟩
  rw [if_neg internal, if_pos ⟨type, by simpa using internal⟩]
  have small := stored.lt_of_label site.label
  have smallParent := stored.lt_of_label site.parent
  have other : n ≠ p := fun same => site.outside (by simp [same])
  have loose (j : ℕ) (q : Ref) : k + j ∉ shape.kids q :=
    stored.not_mem_kids (stored.label_eq_none (Nat.le_add_right k j)) q
  have looseNow (j : ℕ) (q : Ref) : k + j ∉ (shape.setKids n []).kids q := by
    rw [Shape.kids_setKids]
    split_ifs
    · exact List.not_mem_nil
    · exact loose j q
  have fit (c : Ref) (member : c ∈ kids.roots) := fits_of_site stored type site member
  have notMoved (j : ℕ) : k + j ∉ kids.roots := fun member =>
    absurd (fit _ member).1 (Nat.not_lt.mpr (Nat.le_add_right k j))
  have allowed : mayContain above.type .link = true := by
    rw [← site.allowed]
    exact mayContain_congr (by rw [type]; rfl) (by simp) (by rw [type]; simp)
  apply Ends.bind
  refine (Bench.start stored).new rfl fun m₁ b₁ => ?_
  apply Ends.bind
  refine b₁.new rfl fun m₂ b₂ => ?_
  apply Ends.bind
  refine Bench.setUrl (j := 0) b₂ rfl rfl fun _ m₃ b₃ => ?_
  have bench₃ : Bench m₃ (shape.setKids n kids.roots) k
      [(⟨.link, [], content.url, [], false⟩, []), (⟨.text, [], [], [], false⟩, [])] iter := by
    rw [← site.spans.1, Shape.setKids_self]
    exact b₃
  refine (mdMoveChild_ends site.label small rfl bench₃ (loose 0) (by simp) fit).next
    fun _ m₄ b₄ => ?_
  rw [List.nil_append] at b₄
  apply Ends.bind
  apply cmarkNodeFirstChild_ends b₄ (label_grow_self.trans rfl)
  rw [kids_grow_self]
  apply Ends.bind
  refine Bench.setLiteral (j := 1) b₄ rfl rfl fun _ m₅ b₅ => ?_
  have bench₅ : Bench m₅ (shape.setKids n []) k
      [(⟨.link, [], content.url, [], false⟩, kids.roots),
        (⟨.text, externalImage kids, [], [], false⟩, [])] iter := b₅
  apply Ends.bind
  refine Bench.append (i := 0) (j := 1) bench₅ (looseNow 1) (looseNow 0) rfl rfl (by simp) ?_ rfl
    fun _ m₆ b₆ => ?_
  · simpa using ⟨notMoved 0, notMoved 1⟩
  have bench₆ : Bench m₆ (shape.setKids n []) k
      [(⟨.link, [], content.url, [], false⟩, kids.roots ++ [k + 1]),
        (⟨.text, externalImage kids, [], [], false⟩, [])] iter := b₆
  have spans := spans_imageTree stored content.url site
  have outside : p ∉ (imageTree k content.url kids).ids := by
    have notBelow := site.outside
    simp only [Forest.ids_cons, Forest.ids_nil, List.append_nil, List.mem_cons, not_or] at notBelow
    simp [mem_ids_imageTree, notBelow.2, Nat.ne_of_lt smallParent,
      Nat.ne_of_lt (Nat.lt_succ_of_lt smallParent)]
  have apart : ¬ (grow (shape.setKids n []) k [(⟨.link, [], content.url, [], false⟩,
      kids.roots ++ [k + 1]), (⟨.text, externalImage kids, [], [], false⟩, [])]).Below (k + 0) p :=
    fun below => outside (spans.mem_of_below (by simp [imageTree]) below)
  apply Ends.bind
  refine Bench.insertBefore (j := 0) bench₆ ⟨site.parent, smallParent, ⟨_, _, rfl, allowed⟩,
    looseNow 0, by simpa using notMoved 0, apart⟩
    (by rw [Shape.kids_setKids, if_neg (Ne.symm other), site.place]) fun _ m₇ b₇ => ?_
  have replaced := @replaced_grow (shape.setKids n []) k _ p before (n :: after) _ smallParent spans
    outside
  have bench₇ : Bench m₇ ((shape.setKids n []).setKids p
      (before ++ (imageTree k content.url kids).roots ++ (n :: after))) k
      [(⟨.link, [], content.url, [], false⟩, kids.roots ++ [k + 1]),
        (⟨.text, externalImage kids, [], [], false⟩, [])] iter := by
    rw [List.append_assoc]
    exact b₇
  refine cmarkNodeFree_replaced bench₇ site small smallParent
    (⟨replaced.kids, replaced.parent, replaced.spans, fun i less notOld notParent => ?_⟩ :
      Forest.Replaced shape _ k p before (n :: after) (.cons n content kids .nil) _) ?_ ?_ ?_
  · have notNode : i ≠ n := fun same => notOld (by simp [same])
    obtain ⟨sameKids, sameLabel⟩ := replaced.frame i less List.not_mem_nil notParent
    rw [Shape.kids_setKids, if_neg notNode] at sameKids
    exact ⟨sameKids, sameLabel⟩
  · simp
  · rw [kids_grow_of_lt small, Shape.kids_setKids, if_neg other, Shape.kids_setKids, if_pos rfl]
  · intro i member
    rcases mem_ids_imageTree.mp member with rfl | below | rfl
    · exact .inr (Nat.le_refl _)
    · exact .inl below
    · exact .inr (Nat.le_succ k)

theorem handles_mdBlockExternalImages :
    Handles (atNode .exit (· == .image) mdBlockExternalImagesNode) blockNode := by
  refine handles_atNode ?_ ?_ ?_ rfl ?_ ?_
  · refine Forest.FreshIds.ite ⟨?_, ?_, ?_⟩ fun content : Content =>
      content.type = .image ∧ isInternal (some content.url) = false
    · intro n content kids k
      exact Nat.le_add_right k 2
    · intro n content kids k i member
      rw [List.mem_cons]
      rcases mem_ids_imageTree.mp member with rfl | below | rfl
      · simp
      · exact .inl (.inr below)
      · simp
    · intro n content kids k distinct small
      have absent (j : ℕ) : k + j ∉ kids.ids := fun member =>
        absurd (small _ (List.mem_cons_of_mem n member)) (Nat.not_lt.mpr (Nat.le_add_right k j))
      simp only [imageTree, ids_textTree, Forest.ids_cons, Forest.ids_append, Forest.ids_nil,
        List.append_nil]
      refine List.nodup_cons.mpr ⟨?_, List.nodup_append.mpr ⟨(List.nodup_cons.mp distinct).2,
        List.nodup_singleton _, ?_⟩⟩
      · simpa using absent 0
      · rintro i old j new rfl
        exact absent 1 (List.mem_singleton.mp new ▸ old)
  · intro above n content kids k allowed legal
    unfold blockNode
    split_ifs with image
    · refine ⟨?_, Forest.legal_append.mpr ⟨legal.congr fun inner => ?_, rfl, trivial, trivial⟩,
        trivial⟩
      · rw [Content.Allows, ← allowed]
        exact mayContain_congr (by rw [image.1]; rfl) (by simp) (by rw [image.1]; simp)
      · rw [Content.Allows, Content.Allows, image.1]
        exact id
    · exact ⟨allowed, legal, trivial⟩
  · intro type own
    rw [eq_of_beq own]
    rfl
  · intro n content kids k other
    exact if_neg fun both => by simp [both.1] at other
  · intro m shape k root n p content above kids before after own stored _ site
    refine (mdBlockExternalImagesNode_ends stored (eq_of_beq own) site).mono ?_
    rintro _ m' ⟨shape', stored', replaced⟩
    exact ⟨shape', _, stored', replaced⟩

end Images

/-! ## Hashes -/

section Hashes

variable (qsEscape : Str → Str)

/-- A link or an image with a `hash:` URL. -/
def IsHash (content : Content) : Prop :=
  (content.type = .link ∨ content.type = .image) ∧ startsWith "hash:".toList content.url = true

instance : DecidablePred IsHash := fun _ => inferInstanceAs (Decidable (_ ∧ _))

/-- What a link or an image becomes. -/
def converted (content : Content) : Content :=
  { content with url := "/sources/".toList ++ qsEscape content.url }

/-- What `md_convert_hashes` puts in the place of a node. -/
def convertNode (n : Ref) (content : Content) (kids : Forest Ref Content) (k : ℕ) :
    Forest Ref Content × ℕ :=
  if IsHash content then
    (.cons n (converted qsEscape content) kids
      (superscriptTree k "#".toList hashInfoMsg content.url), k + 5)
  else (.cons n content kids .nil, k)

/-- A node with another content, and a superscript behind it. -/
theorem replaced_convert {m : Memory} {shape : Shape Ref Content} {k n p : ℕ} {iter : Iter}
    {above content content' : Content} {before after : List Ref} {kids : Forest Ref Content}
    {label title link : Str} (stored : Stored m shape k iter)
    (site : Site shape p above before after n content kids) :
    Forest.Replaced shape
      ((grow (shape.setKids p (before ++ n :: k :: after)) k
        (superscriptEntries k label title link)).setLabel n (some content')) k p before after
      (.cons n content kids .nil) (.cons n content' kids (superscriptTree k label title link)) := by
  have small := stored.lt_of_label site.label
  have smallParent := stored.lt_of_label site.parent
  have nodup := site.nodup
  have outside := site.outside
  simp only [Forest.ids_cons, Forest.ids_nil, List.append_nil, List.nodup_cons, List.mem_cons,
    not_or] at nodup outside
  have old (i : Ref) (less : i < k) (notNode : i ≠ n) (notParent : i ≠ p) :
      ((grow (shape.setKids p (before ++ n :: k :: after)) k
        (superscriptEntries k label title link)).setLabel n (some content')).kids i =
          shape.kids i ∧
      ((grow (shape.setKids p (before ++ n :: k :: after)) k
        (superscriptEntries k label title link)).setLabel n (some content')).label i =
          shape.label i := by
    rw [Shape.kids_setLabel, Shape.label_setLabel, if_neg notNode, kids_grow_of_lt less,
      label_grow_of_lt less, Shape.kids_setKids, if_neg notParent]
    exact ⟨rfl, rfl⟩
  refine ⟨?_, ?_, ⟨?_, ?_, ?_, ?_⟩, ?_⟩
  · rw [Shape.kids_setLabel, kids_grow_of_lt smallParent]
    simp [superscriptTree]
  · rw [Shape.label_setLabel, if_neg outside.1, label_grow_of_lt smallParent]
    rfl
  · rw [Shape.kids_setLabel, kids_grow_of_lt small, Shape.kids_setKids, if_neg (Ne.symm outside.1)]
    exact site.spans.1
  · rw [Shape.label_setLabel, if_pos rfl]
  · refine site.spans.2.2.1.congr fun i member => old i ?_ ?_ ?_
    · exact stored.lt_of_spans site.spans.2.2.1 member
    · exact fun same => nodup.1 (same ▸ member)
    · exact fun same => outside.2 (same ▸ member)
  · refine (@spans_superscriptTree shape k _ _ _).congr fun i member => ?_
    have new := (bounds_of_mem_superscriptTree member).1
    obtain ⟨j, rfl⟩ := Nat.exists_eq_add_of_le new
    have other : k + j ≠ n := Nat.ne_of_gt (Nat.lt_add_right j small)
    rw [Shape.kids_setLabel, Shape.label_setLabel, if_neg other, kids_grow_add, label_grow_add,
      kids_grow_add, label_grow_add]
    exact ⟨rfl, rfl⟩
  · intro i less notOld notParent
    refine old i less (fun same => notOld ?_) notParent
    simp [same]

/-- **A link or an image is converted**, and the iterator goes on behind its superscript. -/
theorem mdConvertHashesNode_ends {m : Memory} {shape : Shape Ref Content} {k root n p : ℕ}
    {above content : Content} {before after : List Ref} {kids : Forest Ref Content}
    (stored : Stored m shape k ⟨root, ⟨.exit, some n⟩, firstEvent after p⟩) (rootOld : root < k)
    (type : content.type = .link ∨ content.type = .image)
    (site : Site shape p above before after n content kids) :
    (mdConvertHashesNode qsEscape n).Ends m fun _ m' => ∃ shape' cur,
      Stored m' shape' (convertNode qsEscape n content kids k).2 ⟨root, cur, firstEvent after p⟩ ∧
        Forest.Replaced shape shape' k p before after (.cons n content kids .nil)
          (convertNode qsEscape n content kids k).1 := by
  have has : content.type.hasUrl = true := by
    rcases type with type | type <;> rw [type] <;> rfl
  apply Ends.bind
  apply cmarkNodeGetUrl_ends stored site.label has
  rw [convertNode]
  by_cases hash : startsWith "hash:".toList content.url = true
  · rw [if_pos ⟨type, hash⟩]
    dsimp only
    rw [if_pos hash]
    have small := stored.lt_of_label site.label
    have smallParent := stored.lt_of_label site.parent
    have loose (j : ℕ) (q : Ref) : k + j ∉ shape.kids q :=
      stored.not_mem_kids (stored.label_eq_none (Nat.le_add_right k j)) q
    have allowed : mayContain above.type .customInline = true := by
      rw [← site.allowed]
      rcases type with type | type <;>
        exact mayContain_congr (by rw [type]; rfl) (by simp) (by rw [type]; simp)
    apply Ends.bind
    refine superscript_ends stored fun m₁ b₁ => ?_
    apply Ends.bind
    refine Bench.insertAfter (j := 0) b₁ ⟨site.parent, smallParent, ⟨_, _, rfl, allowed⟩, loose 0,
      by simp [superscriptEntries], not_below_grow smallParent (by simp [superscriptEntries])⟩
      site.place fun _ m₂ b₂ => ?_
    -- The iterator goes on behind the superscript.
    have placed : (grow (shape.setKids p (before ++ n :: k :: after)) k
        (superscriptEntries k "#".toList hashInfoMsg content.url)).kids p =
        (before ++ [n]) ++ k :: after := by
      rw [kids_grow_of_lt smallParent]
      simp
    have label : (grow (shape.setKids p (before ++ n :: k :: after)) k
        (superscriptEntries k "#".toList hashInfoMsg content.url)).label k =
        some ⟨.customInline, [], [], [], true⟩ := by
      simp [superscriptEntries]
    apply Ends.bind
    refine cmarkIterReset_ends b₂ fun m₃ s₃ => ?_
    refine (cmarkIterNext_leave s₃ label placed (Nat.ne_of_gt rootOld)).mono ?_
    rintro _ m₄ ⟨-, s₄⟩
    have labelOld : (grow (shape.setKids p (before ++ n :: k :: after)) k
        (superscriptEntries k "#".toList hashInfoMsg content.url)).label n = some content :=
      (label_grow_of_lt small).trans site.label
    refine (cmarkNodeSetUrl_ends s₄ labelOld has _).next fun _ m₅ s₅ => ?_
    exact Ends.pure ⟨_, _, s₅, replaced_convert stored site⟩
  · rw [if_neg fun both => hash both.2]
    dsimp only
    rw [if_neg hash]
    exact Ends.pure ⟨shape, _, stored, site.kept⟩

theorem handles_mdConvertHashes :
    Handles (atNode .exit (fun type => type == .link || type == .image)
      (mdConvertHashesNode qsEscape)) (convertNode qsEscape) := by
  refine handles_atNode ?_ ?_ ?_ rfl ?_ ?_
  · refine Forest.FreshIds.ite ⟨?_, ?_, ?_⟩ IsHash
    · intro n content kids k
      exact Nat.le_add_right k 5
    · intro n content kids k i member
      simp only [Forest.ids_cons, List.mem_cons, List.mem_append] at member ⊢
      rcases member with here | below | beside
      · exact .inl (.inl here)
      · exact .inl (.inr below)
      · exact .inr (bounds_of_mem_superscriptTree beside)
    · intro n content kids k distinct small
      rw [Forest.ids_cons, ← List.cons_append]
      refine List.nodup_append.mpr ⟨distinct, nodup_superscriptTree, ?_⟩
      rintro i old j new rfl
      exact absurd (small i old) (Nat.not_lt.mpr (bounds_of_mem_superscriptTree new).1)
  · intro above n content kids k allowed legal
    unfold convertNode
    split_ifs with hash
    · refine ⟨allowed, legal.congr fun _ => id, legal_superscriptTree ?_⟩
      rw [← allowed]
      rcases hash.1 with type | type <;>
        exact mayContain_congr (by rw [type]; rfl) (by simp) (by rw [type]; simp)
    · exact ⟨allowed, legal, trivial⟩
  · intro type own
    cases type <;> first | rfl | cases own
  · intro n content kids k other
    refine if_neg fun hash => ?_
    rcases hash.1 with type | type <;> simp [type] at other
  · intro m shape k root n p content above kids before after own stored rootOld site
    exact mdConvertHashesNode_ends qsEscape stored rootOld (by simpa using own) site

end Hashes

end HashArchive.Markdown
