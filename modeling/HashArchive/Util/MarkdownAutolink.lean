import HashArchive.Util.MarkdownPasses

/-!
# Links in a text

`md_autolink` cuts a text at what looks like a URL. Each match becomes a link to the history of the URL,
with a superscript behind it that leads to the URL itself; what is before the match becomes a text, and
the rest behind the last match becomes the last. The `while` ends because no match is empty.
-/

set_option autoImplicit false

namespace HashArchive.Markdown

open Cmark Program

section Autolink

/-- What a match becomes: the text before it, the link, and the superscript. -/
def linkTree (k : ℕ) (pfx linkAbs : Str) : Forest Ref Content :=
  textTree k pfx ++
    .cons (k + 1) ⟨.link, [], "/history/".toList ++ linkAbs, [], false⟩ (textTree (k + 7) linkAbs)
      (superscriptTree (k + 2) "^".toList [] linkAbs)

/-- The nodes of these trees, in the order in which they are made. -/
def linkEntries (k : ℕ) (pfx linkAbs : Str) : List (Content × List Ref) :=
  [(⟨.text, pfx, [], [], false⟩, []),
    (⟨.link, [], "/history/".toList ++ linkAbs, [], false⟩, [k + 7])] ++
    superscriptEntries (k + 2) "^".toList [] linkAbs ++ [(⟨.text, linkAbs, [], [], false⟩, [])]

/-- A link needs some characters. -/
theorem least_linkify : linkify.least = 6 := rfl

/-- **What the matches of a text become**, from a position on, and the position behind the last. -/
def autoTrees (str : Str) (pos k : ℕ) : Forest Ref Content × ℕ × ℕ :=
  match _found : linkify.search (str.drop pos) with
  | none => (.nil, pos, k)
  | some (loc, len) =>
    let later := autoTrees str (pos + (loc + len)) (k + 8)
    (linkTree k ((str.drop pos).take loc) (((str.drop pos).drop loc).take len) ++ later.1, later.2)
termination_by str.length - pos
decreasing_by
  have bounds := Pattern.search_eq_some _found
  rw [least_linkify, List.length_drop] at bounds
  omega

/-- What `md_autolink` puts in the place of a text. -/
def autolinkNode (n : Ref) (content : Content) (kids : Forest Ref Content) (k : ℕ) :
    Forest Ref Content × ℕ :=
  if content.type = .text ∧ (linkify.search content.literal).isSome = true then
    let cut := autoTrees content.literal 0 k
    (cut.1 ++ textTree cut.2.2 (content.literal.drop cut.2.1), cut.2.2 + 1)
  else (.cons n content kids .nil, k)

variable {m : Memory} {shape : Shape Ref Content} {k n p pos loc len : ℕ} {iter : Iter}
  {above : Content} {before after : List Ref} {str pfx linkAbs : Str}

theorem ids_linkTree : (linkTree k pfx linkAbs).ids =
    [k, k + 1, k + 7, k + 2, k + 4, k + 3, k + 6, k + 5] := by
  simp [linkTree, textTree, ids_superscriptTree]

theorem bounds_of_mem_linkTree {i : Ref} (member : i ∈ (linkTree k pfx linkAbs).ids) :
    k ≤ i ∧ i < k + 8 := by
  simp only [ids_linkTree, List.mem_cons, List.not_mem_nil, or_false] at member
  rcases member with rfl | rfl | rfl | rfl | rfl | rfl | rfl | rfl <;> simp

theorem spans_linkTree :
    Forest.Spans (grow shape k (linkEntries k pfx linkAbs)) (linkTree k pfx linkAbs) := by
  simp [linkTree, textTree, superscriptTree, linkEntries, superscriptEntries, Forest.Spans,
    Nat.add_assoc]

/-- The first three nodes are the roots. -/
theorem le_of_mem_linkEntries :
    ∀ entry ∈ linkEntries k pfx linkAbs, ∀ c ∈ entry.2, k + 3 ≤ c := by
  simp [linkEntries, superscriptEntries, Nat.add_assoc]

/-- **A match is cut out of a text.** -/
theorem mdAutolinkMatch_ends (stored : Stored m shape k iter)
    (place : shape.kids p = before ++ n :: after) (parent : shape.label p = some above)
    (allowed : mayContain above.type .text = true)
    (found : linkify.search (str.drop pos) = some (loc, len)) :
    (mdAutolinkMatch n str pos).Ends m fun result m' => result = .inl (pos + (loc + len)) ∧
      ∃ shape', Stored m' shape' (k + 8) iter ∧
        Forest.Replaced shape shape' k p before (n :: after) .nil
          (linkTree k ((str.drop pos).take loc) (((str.drop pos).drop loc).take len)) := by
  have smallParent := stored.lt_of_label parent
  have loose (j : ℕ) (q : Ref) : k + j ∉ shape.kids q :=
    stored.not_mem_kids (stored.label_eq_none (Nat.le_add_right k j)) q
  unfold mdAutolinkMatch
  rw [found]
  dsimp only
  generalize (str.drop pos).take loc = pfx
  generalize ((str.drop pos).drop loc).take len = linkAbs
  apply Ends.bind
  refine (Bench.start stored).new rfl fun m₁ b₁ => ?_
  apply Ends.bind
  refine b₁.setLiteral rfl rfl fun _ m₂ b₂ => ?_
  apply Ends.bind
  refine b₂.new rfl fun m₃ b₃ => ?_
  apply Ends.bind
  refine b₃.setUrl rfl rfl fun _ m₄ b₄ => ?_
  apply Ends.bind
  refine superscript_ends b₄ fun m₅ b₅ => ?_
  apply Ends.bind
  refine b₅.join.new rfl fun m₆ b₆ => ?_
  apply Ends.bind
  refine b₆.setLiteral rfl rfl fun _ m₇ b₇ => ?_
  apply Ends.bind
  refine Bench.append (i := 1) (j := 7) b₇ (loose 7) (loose 1) rfl rfl (by simp) ?_ rfl
    fun _ m₈ b₈ => ?_
  · simp [superscriptEntries]
  have bench₈ : Bench m₈ shape k (linkEntries k pfx linkAbs) iter := b₈
  have apart (s : Shape Ref Content) (j : ℕ) :
      ¬ (grow s k (linkEntries k pfx linkAbs)).Below (k + j) p :=
    not_below_grow smallParent fun entry member c child =>
      Nat.le_of_add_right_le (le_of_mem_linkEntries entry member c child)
  have notBelow (j : ℕ) (root : j < 3) (entry : Content × List Ref)
      (member : entry ∈ linkEntries k pfx linkAbs) : k + j ∉ entry.2 := fun child =>
    absurd (le_of_mem_linkEntries entry member _ child) (by omega)
  have absent (j : ℕ) : k + j ∉ before ++ n :: after := fun member => loose j p (place ▸ member)
  simp only [List.mem_append, List.mem_cons, not_or] at absent
  have looseNow (j : ℕ) {list : List Ref} (notIn : k + j ∉ list) (q : Ref) :
      k + j ∉ (shape.setKids p list).kids q := by
    rw [Shape.kids_setKids]
    split_ifs
    · exact notIn
    · exact loose j q
  have allowedLink : mayContain above.type .link = true := by
    rw [← allowed]
    exact mayContain_congr rfl (by simp) (by simp)
  have allowedSup : mayContain above.type .customInline = true := by
    rw [← allowed]
    exact mayContain_congr rfl (by simp) (by simp)
  apply Ends.bind
  refine Bench.insertBefore (j := 0) bench₈ ⟨parent, smallParent, ⟨_, _, rfl, allowed⟩, loose 0,
    notBelow 0 (by simp), apart _ 0⟩ place fun _ m₉ b₉ => ?_
  apply Ends.bind
  refine @Bench.insertBefore _ _ _ _ _ 1 p n (before ++ [k]) after _ b₉ ⟨parent, smallParent,
    ⟨_, _, rfl, allowedLink⟩, looseNow 1 (by simp [absent 1]), notBelow 1 (by simp), apart _ 1⟩
    (by simp) _ fun _ m₁₀ b₁₀ => ?_
  rw [Shape.setKids_setKids] at b₁₀
  apply Ends.bind
  refine @Bench.insertBefore _ _ _ _ _ 2 p n (before ++ [k, k + 1]) after _ b₁₀ ⟨parent, smallParent,
    ⟨_, _, rfl, allowedSup⟩, looseNow 2 (by simp [absent 2]), notBelow 2 (by simp), apart _ 2⟩
    (by simp) _ fun _ m₁₁ b₁₁ => ?_
  rw [Shape.setKids_setKids] at b₁₁
  refine Ends.pure ⟨rfl, _, b₁₁, ?_⟩
  have outside : p ∉ (linkTree k pfx linkAbs).ids := fun member =>
    absurd smallParent (Nat.not_lt.mpr (bounds_of_mem_linkTree member).1)
  have replaced := @replaced_grow shape k _ p before (n :: after) _ smallParent
    (@spans_linkTree shape k pfx linkAbs) outside
  simpa [linkTree, textTree, superscriptTree] using replaced

theorem autoTrees_none (none : linkify.search (str.drop pos) = none) :
    autoTrees str pos k = (.nil, pos, k) := by
  rw [autoTrees]
  split
  · rfl
  · rename_i found
    rw [none] at found
    cases found

theorem autoTrees_some (found : linkify.search (str.drop pos) = some (loc, len)) :
    autoTrees str pos k =
      (linkTree k ((str.drop pos).take loc) (((str.drop pos).drop loc).take len) ++
        (autoTrees str (pos + (loc + len)) (k + 8)).1, (autoTrees str (pos + (loc + len)) (k + 8)).2) := by
  rw [autoTrees]
  split
  · rename_i none
    rw [none] at found
    cases found
  · rename_i found'
    cases found.symm.trans found'
    rfl

/-- The position goes forward, and the new nodes have new numbers. -/
theorem autoTrees_bounds (str : Str) (pos k : ℕ) :
    pos ≤ (autoTrees str pos k).2.1 ∧ k ≤ (autoTrees str pos k).2.2 ∧
      (autoTrees str pos k).1.ids.Nodup ∧
      ∀ i ∈ (autoTrees str pos k).1.ids, k ≤ i ∧ i < (autoTrees str pos k).2.2 := by
  fun_induction autoTrees str pos k with
  | case1 pos k none => simp
  | case2 pos k loc len found later ih =>
      obtain ⟨forward, more, nodup, bounds⟩ := ih
      refine ⟨Nat.le_trans (Nat.le_add_right pos (loc + len)) forward,
        Nat.le_trans (Nat.le_add_right k 8) more, ?_, fun i member => ?_⟩
      · rw [Forest.ids_append]
        refine List.nodup_append.mpr ⟨by simp [ids_linkTree], nodup, ?_⟩
        rintro i here j there rfl
        exact absurd (bounds_of_mem_linkTree here).2 (Nat.not_lt.mpr (bounds i there).1)
      · rw [Forest.ids_append, List.mem_append] at member
        rcases member with here | there
        · have first := bounds_of_mem_linkTree here
          exact ⟨first.1, Nat.lt_of_lt_of_le first.2 more⟩
        · have second := bounds i there
          exact ⟨Nat.le_of_add_right_le second.1, second.2⟩

/-- Where a text may stand, these trees may. -/
theorem autoTrees_legal (allowed : mayContain above.type .text = true) (str : Str) (pos k : ℕ) :
    Forest.Legal Content.Allows above (autoTrees str pos k).1 := by
  have allowedLink : mayContain above.type .link = true := by
    rw [← allowed]
    exact mayContain_congr rfl (by simp) (by simp)
  have allowedSup : mayContain above.type .customInline = true := by
    rw [← allowed]
    exact mayContain_congr rfl (by simp) (by simp)
  fun_induction autoTrees str pos k with
  | case1 pos k none => trivial
  | case2 pos k loc len found later ih =>
      exact Forest.legal_append.mpr ⟨⟨allowed, trivial, allowedLink, ⟨rfl, trivial, trivial⟩,
        legal_superscriptTree allowedSup⟩, ih⟩

/-- **All matches are cut out of a text**; the `while` ends, because each of them takes something. -/
theorem mdAutolinkMatch_loop (str : Str) (pos k : ℕ) {before : List Ref}
    (stored : Stored m shape k iter) (place : shape.kids p = before ++ n :: after)
    (parent : shape.label p = some above) (allowed : mayContain above.type .text = true) :
    (Program.loop (mdAutolinkMatch n str) pos).Ends m fun result m' =>
      result = (autoTrees str pos k).2.1 ∧ ∃ shape', Stored m' shape' (autoTrees str pos k).2.2 iter ∧
        Forest.Replaced shape shape' k p before (n :: after) .nil (autoTrees str pos k).1 := by
  fun_induction autoTrees str pos k generalizing m shape before with
  | case1 pos k none =>
      apply Ends.loop
      unfold mdAutolinkMatch
      rw [none]
      refine Ends.pure ⟨rfl, shape, stored, ?_, rfl, trivial, fun _ _ _ _ => ⟨rfl, rfl⟩⟩
      rw [Forest.roots_nil, List.append_nil, place]
  | case2 pos k loc len found later =>
      rename_i ih
      apply Ends.loop
      refine (mdAutolinkMatch_ends stored place parent allowed found).mono ?_
      rintro _ m₁ ⟨rfl, shape₁, stored₁, replaced₁⟩
      refine (ih stored₁ replaced₁.kids (replaced₁.parent.trans parent)).mono ?_
      rintro _ m₂ ⟨rfl, shape₂, stored₂, replaced₂⟩
      refine ⟨rfl, shape₂, stored₂, replaced₁.append replaced₂ (Nat.le_add_right k 8)
        (fun i member => (bounds_of_mem_linkTree member).2) fun member => ?_⟩
      exact absurd (stored.lt_of_label parent) (Nat.not_lt.mpr (bounds_of_mem_linkTree member).1)

/-- **A text is replaced by its pieces**, if there is a match. -/
theorem mdAutolinkNode_ends {content : Content} {kids : Forest Ref Content}
    (stored : Stored m shape k iter) (type : content.type = .text)
    (site : Site shape p above before after n content kids) :
    (mdAutolinkNode n).Ends m fun _ m' => ∃ shape',
      Stored m' shape' (autolinkNode n content kids k).2 iter ∧
        Forest.Replaced shape shape' k p before after (.cons n content kids .nil)
          (autolinkNode n content kids k).1 := by
  cases eq_nil_of_isLeaf site.legal.2.1 (by rw [type]; rfl)
  have small := stored.lt_of_label site.label
  have smallParent := stored.lt_of_label site.parent
  have other : n ≠ p := fun same => site.outside (by simp [same])
  have allowed : mayContain above.type .text = true := type ▸ site.allowed
  obtain ⟨-, more, -, bounds⟩ := autoTrees_bounds content.literal 0 k
  unfold mdAutolinkNode autolinkNode
  apply Ends.bind
  apply cmarkNodeGetLiteral_ends stored site.label (by rw [type]; rfl)
  dsimp only
  refine (mdAutolinkMatch_loop content.literal 0 k stored site.place site.parent allowed).next ?_
  rintro _ m₁ ⟨rfl, shape₁, stored₁, replaced₁⟩
  cases found : linkify.search content.literal with
  | none =>
      have found₀ : linkify.search (content.literal.drop 0) = none := found
      rw [autoTrees_none found₀] at stored₁ replaced₁ ⊢
      rw [if_neg (by simp), if_neg (by simp)]
      refine Ends.pure ⟨shape₁, stored₁, ?_, replaced₁.parent, ⟨?_, ?_, trivial, trivial⟩, ?_⟩
      · simpa using replaced₁.kids
      · rw [(replaced₁.frame n small List.not_mem_nil other).1]
        exact site.spans.1
      · rw [(replaced₁.frame n small List.not_mem_nil other).2]
        exact site.label
      · intro i less _ notParent
        exact replaced₁.frame i less List.not_mem_nil notParent
  | some match₀ =>
      obtain ⟨loc, len⟩ := match₀
      have found₀ : linkify.search (content.literal.drop 0) = some (loc, len) := found
      have advanced : (autoTrees content.literal 0 k).2.1 ≠ 0 := by
        obtain ⟨least, -⟩ := Pattern.search_eq_some found₀
        obtain ⟨forward, -⟩ := autoTrees_bounds content.literal (0 + (loc + len)) (k + 8)
        rw [least_linkify] at least
        rw [autoTrees_some found₀]
        dsimp only
        omega
      rw [if_pos advanced, if_pos ⟨type, rfl⟩]
      clear advanced
      generalize autoTrees content.literal 0 k = cut at *
      obtain ⟨pieces, pos, k₁⟩ := cut
      dsimp only at more bounds stored₁ replaced₁ ⊢
      have loose (q : Ref) : k₁ + 0 ∉ shape₁.kids q :=
        stored₁.not_mem_kids (stored₁.label_eq_none (Nat.le_refl k₁)) q
      have smallParent₁ : p < k₁ := Nat.lt_of_lt_of_le smallParent more
      apply Ends.bind
      refine (Bench.start stored₁).new rfl fun m₂ b₂ => ?_
      apply Ends.bind
      refine b₂.setLiteral rfl rfl fun _ m₃ b₃ => ?_
      apply Ends.bind
      refine Bench.insertBefore (j := 0) b₃ ⟨replaced₁.parent.trans site.parent, smallParent₁,
        ⟨_, _, rfl, allowed⟩, loose, by simp, not_below_grow smallParent₁ (by simp)⟩ replaced₁.kids
        fun _ m₄ b₄ => ?_
      have bench₄ : Bench m₄ (shape₁.setKids p (before ++ pieces.roots ++
          (textTree k₁ (content.literal.drop pos)).roots ++ (n :: after))) k₁
          [(⟨.text, content.literal.drop pos, [], [], false⟩, [])] iter := by
        rw [List.append_assoc (before ++ pieces.roots)]
        exact b₄
      have replaced₂ := @replaced_grow shape₁ k₁ [(⟨.text, content.literal.drop pos, [], [], false⟩, [])]
        p (before ++ pieces.roots) (n :: after) (textTree k₁ (content.literal.drop pos)) smallParent₁
        (by simp [textTree, Forest.Spans]) (by simp [Nat.ne_of_lt smallParent₁])
      have replaced := replaced₁.append replaced₂ more (fun i member => (bounds i member).2)
        fun member => absurd smallParent (Nat.not_lt.mpr (bounds p member).1)
      refine cmarkNodeFree_replaced bench₄ site small smallParent replaced (by simp) ?_ ?_
      · rw [(replaced.frame n small List.not_mem_nil other).1]
        exact site.spans.1
      · intro i member
        rw [Forest.ids_append, List.mem_append] at member
        rcases member with inPieces | last
        · exact .inr (bounds i inPieces).1
        · rw [ids_textTree, List.mem_singleton] at last
          rw [last]
          exact .inr more

theorem handles_mdAutolink : Handles (atNode .enter (· == .text) mdAutolinkNode) autolinkNode := by
  refine handles_atNode ?_ ?_ ?_ rfl ?_ ?_
  · refine (Forest.FreshIds.of_new ?_ ?_ ?_).ite fun content : Content =>
      content.type = .text ∧ (linkify.search content.literal).isSome = true
    · intro n content kids k
      exact Nat.le_succ_of_le (autoTrees_bounds content.literal 0 k).2.1
    · intro n content kids k i member
      obtain ⟨-, more, -, bounds⟩ := autoTrees_bounds content.literal 0 k
      rw [Forest.ids_append, List.mem_append] at member
      rcases member with inPieces | last
      · exact ⟨(bounds i inPieces).1, Nat.lt_succ_of_lt (bounds i inPieces).2⟩
      · rw [ids_textTree, List.mem_singleton] at last
        rw [last]
        exact ⟨more, Nat.lt_succ_self _⟩
    · intro n content kids k
      obtain ⟨-, more, nodup, bounds⟩ := autoTrees_bounds content.literal 0 k
      rw [Forest.ids_append]
      refine List.nodup_append.mpr ⟨nodup, List.nodup_singleton _, ?_⟩
      rintro i inPieces j last rfl
      rw [ids_textTree, List.mem_singleton] at last
      exact absurd (bounds i inPieces).2 (by rw [last]; exact Nat.lt_irrefl _)
  · intro above n content kids k allowed legal
    unfold autolinkNode
    split_ifs with found
    · rw [Content.Allows, found.1] at allowed
      exact Forest.legal_append.mpr ⟨autoTrees_legal allowed _ _ _, allowed, trivial, trivial⟩
    · exact ⟨allowed, legal, trivial⟩
  · intro type own
    rw [eq_of_beq own]
    rfl
  · intro n content kids k other
    exact if_neg fun both => by simp [both.1] at other
  · intro m shape k root n p content above kids before after own stored _ site
    refine (mdAutolinkNode_ends stored (eq_of_beq own) site).mono ?_
    rintro _ m' ⟨shape', stored', replaced⟩
    exact ⟨shape', _, stored', replaced⟩

end Autolink

end HashArchive.Markdown
