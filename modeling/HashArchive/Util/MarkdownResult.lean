import HashArchive.Util.MarkdownAutolink
import HashArchive.Util.MarkdownUrls

/-!
# What a processed document is like

The five passes end on every document, whatever its shape is. In the result raw HTML is
only what `superscript` made, an image is one that the fourth pass let stand, and each link or
image with a `hash:` URL was rewritten once and has one superscript behind it (`Converted`): the
superscripts of the last pass are not converted themselves.
-/

set_option autoImplicit false

namespace HashArchive.Markdown

open Cmark Program

/-- HTML that is shown as it is. -/
def IsRaw (type : NodeType) : Prop := type = .htmlBlock ∨ type = .htmlInline

/-- A node of raw HTML is new, and made by `superscript`. -/
def MadeBySuperscript (k : ℕ) (node : Ref × Content) : Prop :=
  IsRaw node.2.type → k ≤ node.1 ∧ node.2.superscript = true ∧
    (node.2.literal = "<sup>[".toList ∨ node.2.literal = "]</sup>".toList)

/-- **What the last pass does**: each link or image with a `hash:` URL gets the URL of the page of
its sources, and behind it stands one new superscript with the URI that it had. All else stays. -/
inductive Converted (qsEscape : Str → Str) (k : ℕ) :
    Forest Ref Content → Forest Ref Content → Prop where
  | nil : Converted qsEscape k .nil .nil
  | kept {n : Ref} {content : Content} {kids kids' rest rest' : Forest Ref Content} :
    ¬ IsHash content → Converted qsEscape k kids kids' → Converted qsEscape k rest rest' →
    Converted qsEscape k (.cons n content kids rest) (.cons n content kids' rest')
  | rewritten {n j : Ref} {content : Content} {kids kids' rest rest' : Forest Ref Content} :
    IsHash content → k ≤ j → Converted qsEscape k kids kids' → Converted qsEscape k rest rest' →
    Converted qsEscape k (.cons n content kids rest)
      (.cons n { content with url := "/sources/".toList ++ qsEscape content.url } kids'
        (superscriptTree j "#".toList hashInfoMsg content.url ++ rest'))

section Passes

variable {forest : Forest Ref Content} {k : ℕ}

theorem made_superscriptTree {base : ℕ} (le : base ≤ k) {label title link : Str} :
    ∀ node ∈ (superscriptTree k label title link).nodes, MadeBySuperscript base node := by
  have more (j : ℕ) : base ≤ k + j := Nat.le_add_right_of_le le
  simp [superscriptTree, MadeBySuperscript, IsRaw, more]

theorem nodes_textTree {literal : Str} :
    (textTree k literal).nodes = [(k, ⟨.text, literal, [], [], false⟩)] := rfl

/-- After the first pass there is no block of HTML. -/
theorem no_block_escaped (node : Ref × Content)
    (member : node ∈ (Forest.rewrite escapeNode forest k).1.nodes) : node.2.type ≠ .htmlBlock := by
  revert node
  refine handles_mdEscape.fresh.forall_nodes_rewrite (fun _ => True) ?_ (fun _ _ => trivial)
    (Nat.zero_le _)
  intro n content kids k _ _ below
  unfold escapeNode
  split_ifs with html
  · simp [paragraphTree, textTree]
  · simpa [html] using below

/-- After the second there is no raw HTML, if there was no block of it. -/
theorem no_raw_escaped (noBlock : ∀ node ∈ forest.nodes, node.2.type ≠ .htmlBlock)
    (node : Ref × Content) (member : node ∈ (Forest.rewrite escapeInlineNode forest k).1.nodes) :
    ¬ IsRaw node.2.type := by
  revert node
  refine handles_mdEscapeInline.fresh.forall_nodes_rewrite _ ?_ noBlock (Nat.zero_le _)
  intro n content kids k _ here below
  unfold escapeInlineNode
  split_ifs with html
  · simp [nodes_textTree, IsRaw]
  · simpa [IsRaw, html, here] using below

/-- The pieces of a text hold no other raw HTML than that of their superscripts. -/
theorem made_autoTrees {base : ℕ} (str : Str) (pos k : ℕ) (le : base ≤ k) :
    ∀ node ∈ (autoTrees str pos k).1.nodes, MadeBySuperscript base node := by
  fun_induction autoTrees str pos k with
  | case1 pos k none =>
      intro node member
      cases member
  | case2 pos k loc len found later ih =>
      rw [Forest.nodes_append, List.forall_mem_append]
      refine ⟨?_, ih (Nat.le_add_right_of_le le)⟩
      have sup := @made_superscriptTree (k + 2) base (Nat.le_add_right_of_le le) "^".toList []
        (((str.drop pos).drop loc).take len)
      simpa [linkTree, textTree, MadeBySuperscript, IsRaw] using sup

theorem made_autolinked {base : ℕ} (noRaw : ∀ node ∈ forest.nodes, ¬ IsRaw node.2.type)
    (le : base ≤ k) : ∀ node ∈ (Forest.rewrite autolinkNode forest k).1.nodes,
      MadeBySuperscript base node := by
  refine handles_mdAutolink.fresh.forall_nodes_rewrite _ ?_ noRaw le
  intro n content kids k le here below
  unfold autolinkNode
  split_ifs with found
  · obtain ⟨-, more, -⟩ := autoTrees_bounds content.literal 0 k
    rw [Forest.nodes_append, List.forall_mem_append]
    refine ⟨made_autoTrees content.literal 0 k le, ?_⟩
    simp [nodes_textTree, MadeBySuperscript, IsRaw]
  · simp only [Forest.nodes_cons, Forest.nodes_nil, List.append_nil, List.forall_mem_cons]
    exact ⟨fun raw => absurd raw here, below⟩

theorem made_blocked {base : ℕ} (made : ∀ node ∈ forest.nodes, MadeBySuperscript base node) :
    ∀ node ∈ (Forest.rewrite blockNode forest k).1.nodes, MadeBySuperscript base node := by
  refine handles_mdBlockExternalImages.fresh.forall_nodes_rewrite _ ?_ made (Nat.zero_le _)
  intro n content kids k _ here below
  unfold blockNode
  split_ifs with image
  · simp only [imageTree, nodes_textTree, Forest.nodes_cons, Forest.nodes_nil, Forest.nodes_append,
      List.append_nil, List.forall_mem_cons, List.forall_mem_append]
    refine ⟨?_, below, ?_⟩
    · simp [MadeBySuperscript, IsRaw]
    · simp [MadeBySuperscript, IsRaw]
  · simp only [Forest.nodes_cons, Forest.nodes_nil, List.append_nil, List.forall_mem_cons]
    exact ⟨here, below⟩

theorem made_converted (qsEscape : Str → Str) {base : ℕ}
    (made : ∀ node ∈ forest.nodes, MadeBySuperscript base node) (le : base ≤ k) :
    ∀ node ∈ (Forest.rewrite (convertNode qsEscape) forest k).1.nodes,
      MadeBySuperscript base node := by
  refine (handles_mdConvertHashes qsEscape).fresh.forall_nodes_rewrite _ ?_ made le
  intro n content kids k le here below
  unfold convertNode
  split_ifs with hash
  · simp only [Forest.nodes_cons, List.forall_mem_cons, List.forall_mem_append]
    exact ⟨here, below, made_superscriptTree le⟩
  · simp only [Forest.nodes_cons, Forest.nodes_nil, List.append_nil, List.forall_mem_cons]
    exact ⟨here, below⟩

/-- An image that is left by the fourth pass was there before, with a URL that it lets stand. -/
theorem internal_blocked : ∀ node ∈ (Forest.rewrite blockNode forest k).1.nodes,
    node.2.type = .image → node ∈ forest.nodes ∧ isInternal (some node.2.url) = true := by
  refine handles_mdBlockExternalImages.fresh.forall_nodes_rewrite (· ∈ forest.nodes) ?_
    (fun _ => id) (Nat.zero_le _)
  intro n content kids k _ here below
  unfold blockNode
  split_ifs with image
  · simp only [imageTree, nodes_textTree, Forest.nodes_cons, Forest.nodes_nil, Forest.nodes_append,
      List.append_nil, List.forall_mem_cons, List.forall_mem_append]
    exact ⟨by simp, below, by simp⟩
  · simp only [Forest.nodes_cons, Forest.nodes_nil, List.append_nil, List.forall_mem_cons]
    refine ⟨fun type => ⟨here, ?_⟩, below⟩
    by_contra external
    exact image ⟨type, by simpa using external⟩

/-- The last pass makes no image. -/
theorem images_converted (qsEscape : Str → Str) :
    ∀ node ∈ (Forest.rewrite (convertNode qsEscape) forest k).1.nodes, node.2.type = .image →
      ∃ content, (node.1, content) ∈ forest.nodes ∧ content.type = .image := by
  refine (handles_mdConvertHashes qsEscape).fresh.forall_nodes_rewrite (· ∈ forest.nodes) ?_
    (fun _ => id) (Nat.zero_le _)
  intro n content kids k _ here below
  unfold convertNode
  split_ifs with hash
  · simp only [Forest.nodes_cons, List.forall_mem_cons, List.forall_mem_append]
    refine ⟨fun type => ⟨content, here, type⟩, below, ?_⟩
    simp [superscriptTree]
  · simp only [Forest.nodes_cons, Forest.nodes_nil, List.append_nil, List.forall_mem_cons]
    exact ⟨fun type => ⟨content, here, type⟩, below⟩

/-- **The last pass converts.** -/
theorem converted_rewrite (qsEscape : Str → Str) {base : ℕ} (le : base ≤ k) :
    Converted qsEscape base forest (Forest.rewrite (convertNode qsEscape) forest k).1 := by
  have fresh := (handles_mdConvertHashes qsEscape).fresh
  induction forest generalizing k with
  | nil => exact .nil
  | cons n content kids rest ihKids ihRest =>
      have below := Nat.le_trans le (fresh.le_rewrite kids k)
      have beside := Nat.le_trans below (fresh.le n content
        (Forest.rewrite (convertNode qsEscape) kids k).1 _)
      rw [Forest.rewrite_cons]
      dsimp only
      have later := ihRest beside
      unfold convertNode at later ⊢
      split_ifs with hash
      · rw [if_pos hash] at later
        exact .rewritten hash below (ihKids le) later
      · rw [if_neg hash] at later
        exact .kept hash (ihKids le) later

end Passes

/-! ## The whole run -/

section Process

variable {m : Memory} {root : Ref} {content : Content} {forest : Forest Ref Content} {k : ℕ}

theorem cmarkIterNew_ends (document : Document m root content forest k) :
    (cmarkIterNew root).Ends m fun _ m' =>
      Document m' root content forest k ∧ m'.iter.root = root := by
  obtain ⟨⟨shape, stored, label, place, spans⟩, type, legal, nodup⟩ := document
  refine Ends.modify ⟨⟨⟨shape, ?_, label, place, spans⟩, type, legal, nodup⟩, rfl⟩
  exact ⟨stored.linked, stored.unused, stored.fresh, rfl⟩

/-- **A pass ends**, and has rewritten the document. -/
theorem mdRun_returns {handle : EventType → Program Memory Unit}
    {replace : Ref → Content → Forest Ref Content → ℕ → Forest Ref Content × ℕ}
    (handles : Handles handle replace) (document : Document m root content forest k)
    (sameRoot : m.iter.root = root) : ∃ m', (mdRun root (eachEvent handle)).Returns m () m' ∧
      Document m' root content (Forest.rewrite replace forest k).1
        (Forest.rewrite replace forest k).2 ∧ m'.iter.root = root := by
  obtain ⟨_, m', returns, after⟩ := eachEvent_document handles document sameRoot
  exact ⟨m', returns, after⟩

/-- The first two passes leave no raw HTML. -/
theorem mdEscape_returns (document : Document m root content forest k)
    (sameRoot : m.iter.root = root) : ∃ m₁ m₂ forest₂ k₂,
      (mdRun root mdEscape).Returns m () m₁ ∧ (mdRun root mdEscapeInline).Returns m₁ () m₂ ∧
      Document m₂ root content forest₂ k₂ ∧ m₂.iter.root = root ∧ k ≤ k₂ ∧
      ∀ node ∈ forest₂.nodes, ¬ IsRaw node.2.type := by
  obtain ⟨m₁, returns₁, document₁, root₁⟩ := mdRun_returns handles_mdEscape document sameRoot
  obtain ⟨m₂, returns₂, document₂, root₂⟩ := mdRun_returns handles_mdEscapeInline document₁ root₁
  exact ⟨m₁, m₂, _, _, returns₁, returns₂, document₂, root₂,
    Nat.le_trans (handles_mdEscape.fresh.le_rewrite _ _)
      (handles_mdEscapeInline.fresh.le_rewrite _ _), no_raw_escaped no_block_escaped⟩

/-- The third leaves that of its superscripts. -/
theorem mdAutolink_returns {base : ℕ} (document : Document m root content forest k)
    (sameRoot : m.iter.root = root) (le : base ≤ k)
    (noRaw : ∀ node ∈ forest.nodes, ¬ IsRaw node.2.type) : ∃ m' forest' k',
      (mdRun root mdAutolink).Returns m () m' ∧ Document m' root content forest' k' ∧
      m'.iter.root = root ∧ base ≤ k' ∧ ∀ node ∈ forest'.nodes, MadeBySuperscript base node := by
  obtain ⟨m', returns, after, root'⟩ := mdRun_returns handles_mdAutolink document sameRoot
  exact ⟨m', _, _, returns, after, root', Nat.le_trans le (handles_mdAutolink.fresh.le_rewrite _ _),
    made_autolinked noRaw le⟩

/-- The fourth leaves no external image. -/
theorem mdBlockExternalImages_returns {base : ℕ} (document : Document m root content forest k)
    (sameRoot : m.iter.root = root) (le : base ≤ k)
    (made : ∀ node ∈ forest.nodes, MadeBySuperscript base node) : ∃ m' forest' k',
      (mdRun root mdBlockExternalImages).Returns m () m' ∧ Document m' root content forest' k' ∧
      m'.iter.root = root ∧ base ≤ k' ∧ (∀ node ∈ forest'.nodes, MadeBySuperscript base node) ∧
      ∀ node ∈ forest'.nodes, node.2.type = .image →
        node ∈ forest.nodes ∧ isInternal (some node.2.url) = true := by
  obtain ⟨m', returns, after, root'⟩ := mdRun_returns handles_mdBlockExternalImages document sameRoot
  exact ⟨m', _, _, returns, after, root',
    Nat.le_trans le (handles_mdBlockExternalImages.fresh.le_rewrite _ _), made_blocked made,
    internal_blocked⟩

/-- **Markdown post-processing ends and sanitises** every document. The passes go through the
states `m₁` to `m₅`; `forest₃` is the document when the images are looked at, and `forest₄` when the
hashes are. -/
theorem mdProcess_sanitises (qsEscape : Str → Str) (document : Document m root content forest k) :
    ∃ m₀ m₁ m₂ m₃ m₄ m₅ forest₃ forest₄ forest₅ k₃ k₄ k₅,
      (mdProcess qsEscape root).Returns m 0 m₅ ∧
      (cmarkIterNew root).Returns m () m₀ ∧
      (mdRun root mdEscape).Returns m₀ () m₁ ∧
      (mdRun root mdEscapeInline).Returns m₁ () m₂ ∧
      (mdRun root mdAutolink).Returns m₂ () m₃ ∧ Document m₃ root content forest₃ k₃ ∧
      (mdRun root mdBlockExternalImages).Returns m₃ () m₄ ∧ Document m₄ root content forest₄ k₄ ∧
      (mdRun root (mdConvertHashes qsEscape)).Returns m₄ () m₅ ∧
      Document m₅ root content forest₅ k₅ ∧
      (∀ node ∈ forest₅.nodes, MadeBySuperscript k node) ∧
      (∀ node ∈ forest₅.nodes, node.2.type = .image → ∃ before, (node.1, before) ∈ forest₃.nodes ∧
        before.type = .image ∧ isInternal (some before.url) = true) ∧
      Converted qsEscape k₄ forest₄ forest₅ := by
  obtain ⟨_, m₀, returns₀, document₀, root₀⟩ := cmarkIterNew_ends document
  obtain ⟨m₁, m₂, forest₂, k₂, returns₁, returns₂, document₂, root₂, le₂, noRaw⟩ :=
    mdEscape_returns document₀ root₀
  obtain ⟨m₃, forest₃, k₃, returns₃, document₃, root₃, le₃, made₃⟩ :=
    mdAutolink_returns document₂ root₂ le₂ noRaw
  obtain ⟨m₄, forest₄, k₄, returns₄, document₄, root₄, le₄, made₄, internal⟩ :=
    mdBlockExternalImages_returns document₃ root₃ le₃ made₃
  obtain ⟨m₅, returns₅, document₅, -⟩ :=
    mdRun_returns (handles_mdConvertHashes qsEscape) document₄ root₄
  have all : (mdProcess qsEscape root).Returns m 0 m₅ :=
    returns₀.bind (returns₁.bind (returns₂.bind (returns₃.bind (returns₄.bind
      (returns₅.bind ⟨0, rfl⟩)))))
  refine ⟨m₀, m₁, m₂, m₃, m₄, m₅, forest₃, forest₄, _, k₃, k₄, _, all, returns₀, returns₁, returns₂,
    returns₃, document₃, returns₄, document₄, returns₅, document₅, made_converted qsEscape made₄ le₄,
    ?_, converted_rewrite qsEscape (Nat.le_refl k₄)⟩
  intro node member type
  obtain ⟨before, here, image⟩ := images_converted qsEscape node member type
  obtain ⟨there, safe⟩ := internal (node.1, before) here image
  exact ⟨before, there, image, safe⟩

end Process

/-! ## A small document -/

/-- A block of HTML, and a paragraph with a link to a `hash:` URI. -/
def smallForest : Forest Ref Content :=
  .cons 1 ⟨.htmlBlock, "<script>".toList, [], [], false⟩ .nil
    (.cons 2 ⟨.paragraph, [], [], [], false⟩
      (.cons 3 ⟨.link, [], "hash://sha256/00".toList, [], false⟩ .nil .nil) .nil)

def smallMemory : Memory where
  nodes
    | 0 => some ⟨none, none, none, some 1, some 2, ⟨.document, [], [], [], false⟩⟩
    | 1 => some ⟨some 2, none, some 0, none, none,
        ⟨.htmlBlock, "<script>".toList, [], [], false⟩⟩
    | 2 => some ⟨none, some 1, some 0, some 3, some 3, ⟨.paragraph, [], [], [], false⟩⟩
    | 3 => some ⟨none, none, some 2, none, none,
        ⟨.link, [], "hash://sha256/00".toList, [], false⟩⟩
    | _ => none
  fresh := 4
  iter := ⟨0, ⟨.none, none⟩, ⟨.enter, some 0⟩⟩

def smallShape : Shape Ref Content where
  kids
    | 0 => [1, 2]
    | 2 => [3]
    | _ => []
  label n := (smallMemory.nodes n).map Node.content

theorem smallMemory_linked : Linked none smallMemory.nodes smallShape where
  label _ := rfl
  ends n node held := by
    match n, held with
    | 0, rfl | 1, rfl | 2, rfl | 3, rfl => exact ⟨rfl, rfl⟩
  placed p before c after split := by
    match p, split with
    | 0, split =>
        rcases before with _ | ⟨b, _ | ⟨b', before⟩⟩
        · cases split
          exact ⟨_, rfl, rfl, rfl, rfl⟩
        · cases split
          exact ⟨_, rfl, rfl, rfl, rfl⟩
        · simp [smallShape] at split
    | 2, split =>
        rcases before with _ | ⟨b, before⟩
        · cases split
          exact ⟨_, rfl, rfl, rfl, rfl⟩
        · simp [smallShape] at split
    | 1, split | 3, split | _ + 4, split => exact absurd split (by simp [smallShape])
  loose c node held _ nowhere := by
    match c, held with
    | 0, rfl => exact ⟨rfl, rfl, rfl⟩
    | 1, _ => exact absurd (by simp [smallShape]) (nowhere 0)
    | 2, _ => exact absurd (by simp [smallShape]) (nowhere 0)
    | 3, _ => exact absurd (by simp [smallShape]) (nowhere 2)
  dead n gone := by
    match n, gone with
    | 0, gone => cases gone
    | 2, gone => cases gone
    | 1, _ | 3, _ | _ + 4, _ => rfl
  nodup p := by
    match p with
    | 0 => simp [smallShape]
    | 2 => simp [smallShape]
    | 1 | 3 | _ + 4 => exact List.nodup_nil
  acyclic := ⟨id, fun p c child => by
    match p, child with
    | 0, child =>
        rcases List.mem_cons.mp child with rfl | last
        · exact Nat.zero_lt_one
        · rw [List.mem_singleton.mp last]
          exact Nat.zero_lt_two
    | 2, child =>
        rw [List.mem_singleton.mp child]
        exact Nat.lt_succ_self 2
    | 1, child | 3, child | _ + 4, child => cases child⟩

theorem smallMemory_document :
    Document smallMemory 0 ⟨.document, [], [], [], false⟩ smallForest 4 where
  stored := by
    refine ⟨smallShape, ⟨smallMemory_linked, fun n new => ?_, rfl, rfl⟩, rfl, rfl, ?_⟩
    · match n, new with
      | _ + 4, _ => rfl
    · exact ⟨rfl, rfl, trivial, rfl, rfl, ⟨rfl, rfl, trivial, trivial⟩, trivial⟩
  type := rfl
  legal := ⟨rfl, trivial, rfl, ⟨rfl, trivial, trivial⟩, trivial⟩
  nodup := by simp [smallForest]

theorem mdProcess_sanitises_small : ∃ m₅ forest₅ k₅,
    (mdProcess (fun uri => uri.flatMap fun c =>
      if c = ':' then "%3A".toList else if c = '/' then "%2F".toList else [c]) 0).Returns
        smallMemory 0 m₅ ∧
    Document m₅ 0 ⟨.document, [], [], [], false⟩ forest₅ k₅ ∧
    ∀ node ∈ forest₅.nodes, MadeBySuperscript 4 node := by
  obtain ⟨-, -, -, -, -, m₅, -, -, forest₅, -, -, k₅, returns, -, -, -, -, -, -, -, -, document, made,
    -⟩ := mdProcess_sanitises _ smallMemory_document
  exact ⟨m₅, forest₅, k₅, returns, document, made⟩

end HashArchive.Markdown
