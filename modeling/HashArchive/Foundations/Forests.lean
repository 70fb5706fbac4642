import Mathlib.Data.List.Nodup
import Mathlib.Logic.Function.Basic
import Mathlib.Logic.Relation

/-!
# Forests

Trees side by side, each node with an identity and a label (`Forest`), and how a forest is
stored: for each identity the list of its children and its label (`Shape`). A forest is stored
in a shape (`Spans`) when at each of its nodes the shape says what the forest does; what the
shape says elsewhere does not matter (`Spans.congr`).

A forest is rewritten from the leaves to the roots, from left to right (`Forest.rewrite`): each
node, with its children already rewritten, is replaced by a forest, and new nodes get new
identities. What one replacement keeps, a rewriting keeps (`Legal.rewrite`,
`FreshIds.nodup_rewrite`). Where a forest is stored, a part of it is replaced in its place and
nothing else changes (`Replaced`).
-/

set_option autoImplicit false

namespace HashArchive

/-- **Trees side by side**: the first with its identity, its label and its children, and the
others. -/
inductive Forest (ι α : Type) where
  | nil
  | cons (id : ι) (label : α) (kids rest : Forest ι α)
deriving DecidableEq, Repr

/-- **How forests are stored**: the children of each node, and the label of each node that there
is. -/
@[ext] structure Shape (ι α : Type) where
  kids : ι → List ι
  label : ι → Option α

namespace Shape

variable {ι α : Type}

/-- A node is another one or below it. -/
def Below (shape : Shape ι α) : ι → ι → Prop :=
  Relation.ReflTransGen fun parent child => child ∈ shape.kids parent

/-- With more children there is more below. -/
theorem Below.mono {shape other : Shape ι α} (more : ∀ n, shape.kids n ⊆ other.kids n) {n m : ι}
    (below : shape.Below n m) : other.Below n m := by
  induction below with
  | refl => exact .refl
  | tail _ child ih => exact ih.tail (more _ child)

section Changes

variable [DecidableEq ι]

/-- The children of one node are others. -/
def setKids (shape : Shape ι α) (n : ι) (kids : List ι) : Shape ι α :=
  { shape with kids := Function.update shape.kids n kids }

/-- The label of one node is another, or the node is no longer there. -/
def setLabel (shape : Shape ι α) (n : ι) (label : Option α) : Shape ι α :=
  { shape with label := Function.update shape.label n label }

variable (shape : Shape ι α) (n : ι)

@[simp] theorem kids_setKids (kids : List ι) (m : ι) :
    (shape.setKids n kids).kids m = if m = n then kids else shape.kids m :=
  Function.update_apply ..

@[simp] theorem label_setKids (kids : List ι) : (shape.setKids n kids).label = shape.label := rfl

theorem setKids_self : shape.setKids n (shape.kids n) = shape := by
  refine Shape.ext (funext fun m => ?_) rfl
  rw [kids_setKids]
  split_ifs with here
  · rw [here]
  · rfl

@[simp] theorem setKids_setKids (kids others : List ι) :
    (shape.setKids n kids).setKids n others = shape.setKids n others := by
  simp [setKids]

@[simp] theorem kids_setLabel (label : Option α) : (shape.setLabel n label).kids = shape.kids := rfl

@[simp] theorem label_setLabel (label : Option α) (m : ι) :
    (shape.setLabel n label).label m = if m = n then label else shape.label m :=
  Function.update_apply ..

end Changes

end Shape

namespace Forest

variable {ι α κ : Type}

/-! ## Nodes -/

/-- One forest beside the other. -/
def append : Forest ι α → Forest ι α → Forest ι α
  | nil, others => others
  | cons n a kids rest, others => cons n a kids (rest.append others)

instance : Append (Forest ι α) := ⟨append⟩

/-- The identities of the roots. -/
def roots : Forest ι α → List ι
  | nil => []
  | cons n _ _ rest => n :: rest.roots

/-- The nodes, each before its children. -/
def nodes : Forest ι α → List (ι × α)
  | nil => []
  | cons n a kids rest => (n, a) :: (kids.nodes ++ rest.nodes)

/-- The identities of the nodes. -/
def ids (forest : Forest ι α) : List ι := forest.nodes.map Prod.fst

@[simp] theorem nil_append (forest : Forest ι α) : nil ++ forest = forest := rfl

@[simp] theorem cons_append (n : ι) (a : α) (kids rest others : Forest ι α) :
    cons n a kids rest ++ others = cons n a kids (rest ++ others) := rfl

@[simp] theorem append_nil (forest : Forest ι α) : forest ++ nil = forest := by
  induction forest with
  | nil => rfl
  | cons n a kids rest _ ih => rw [cons_append, ih]

theorem append_assoc (first second third : Forest ι α) :
    first ++ second ++ third = first ++ (second ++ third) := by
  induction first with
  | nil => rfl
  | cons n a kids rest _ ih => rw [cons_append, cons_append, cons_append, ih]

@[simp] theorem roots_nil : (nil : Forest ι α).roots = [] := rfl

@[simp] theorem roots_cons (n : ι) (a : α) (kids rest : Forest ι α) :
    (cons n a kids rest).roots = n :: rest.roots := rfl

@[simp] theorem roots_append (forest others : Forest ι α) :
    (forest ++ others).roots = forest.roots ++ others.roots := by
  induction forest with
  | nil => rfl
  | cons n a kids rest _ ih => rw [cons_append, roots_cons, roots_cons, ih, List.cons_append]

@[simp] theorem nodes_nil : (nil : Forest ι α).nodes = [] := rfl

@[simp] theorem nodes_cons (n : ι) (a : α) (kids rest : Forest ι α) :
    (cons n a kids rest).nodes = (n, a) :: (kids.nodes ++ rest.nodes) := rfl

@[simp] theorem nodes_append (forest others : Forest ι α) :
    (forest ++ others).nodes = forest.nodes ++ others.nodes := by
  induction forest with
  | nil => rfl
  | cons n a kids rest _ ih =>
      rw [cons_append, nodes_cons, nodes_cons, ih, List.cons_append, List.append_assoc]

@[simp] theorem ids_nil : (nil : Forest ι α).ids = [] := rfl

@[simp] theorem ids_cons (n : ι) (a : α) (kids rest : Forest ι α) :
    (cons n a kids rest).ids = n :: (kids.ids ++ rest.ids) := by
  rw [ids, nodes_cons, List.map_cons, List.map_append, ids, ids]

@[simp] theorem ids_append (forest others : Forest ι α) :
    (forest ++ others).ids = forest.ids ++ others.ids := by
  rw [ids, nodes_append, List.map_append, ids, ids]

theorem roots_subset_ids (forest : Forest ι α) : forest.roots ⊆ forest.ids := by
  induction forest with
  | nil => exact List.Subset.refl _
  | cons n a kids rest _ ih =>
      rw [roots_cons, ids_cons]
      exact List.cons_subset_cons n (List.Subset.trans ih (List.subset_append_right _ _))

/-! ## Stored forests -/

/-- **A forest is stored** in a shape. -/
def Spans (shape : Shape ι α) : Forest ι α → Prop
  | nil => True
  | cons n a kids rest =>
    shape.kids n = kids.roots ∧ shape.label n = some a ∧ Spans shape kids ∧ Spans shape rest

theorem spans_append {shape : Shape ι α} {forest others : Forest ι α} :
    Spans shape (forest ++ others) ↔ Spans shape forest ∧ Spans shape others := by
  induction forest with
  | nil => simp [Spans]
  | cons n a kids rest _ ih =>
      rw [cons_append, Spans, Spans, ih]
      tauto

/-- Only what the shape says at its nodes matters. -/
theorem Spans.congr {shape other : Shape ι α} {forest : Forest ι α}
    (spans : Spans shape forest)
    (same : ∀ n ∈ forest.ids, other.kids n = shape.kids n ∧ other.label n = shape.label n) :
    Spans other forest := by
  induction forest with
  | nil => trivial
  | cons n a kids rest ihKids ihRest =>
      obtain ⟨children, label, spansKids, spansRest⟩ := spans
      simp only [ids_cons, List.mem_cons, List.mem_append] at same
      obtain ⟨sameKids, sameLabel⟩ := same n (.inl rfl)
      exact ⟨sameKids.trans children, sameLabel.trans label,
        ihKids spansKids fun m member => same m (.inr (.inl member)),
        ihRest spansRest fun m member => same m (.inr (.inr member))⟩

/-- The children of its nodes are its nodes. -/
theorem Spans.closed {shape : Shape ι α} {forest : Forest ι α} (spans : Spans shape forest)
    {n c : ι} (member : n ∈ forest.ids) (child : c ∈ shape.kids n) : c ∈ forest.ids := by
  induction forest with
  | nil => cases member
  | cons m a kids rest ihKids ihRest =>
      obtain ⟨children, -, spansKids, spansRest⟩ := spans
      rw [ids_cons, List.mem_cons, List.mem_append] at member ⊢
      rcases member with rfl | inKids | inRest
      · rw [children] at child
        exact .inr (.inl (kids.roots_subset_ids child))
      · exact .inr (.inl (ihKids spansKids inKids))
      · exact .inr (.inr (ihRest spansRest inRest))

/-- What is below its nodes are its nodes. -/
theorem Spans.mem_of_below {shape : Shape ι α} {forest : Forest ι α}
    (spans : Spans shape forest) {n m : ι} (member : n ∈ forest.ids) (below : shape.Below n m) :
    m ∈ forest.ids := by
  induction below with
  | refl => exact member
  | tail _ child ih => exact spans.closed ih child

theorem Spans.label_of_mem {shape : Shape ι α} {forest : Forest ι α} (spans : Spans shape forest)
    {n : ι} {a : α} (member : (n, a) ∈ forest.nodes) : shape.label n = some a := by
  induction forest with
  | nil => cases member
  | cons m b kids rest ihKids ihRest =>
      obtain ⟨-, label, spansKids, spansRest⟩ := spans
      rw [nodes_cons, List.mem_cons, List.mem_append] at member
      rcases member with same | inKids | inRest
      · cases same
        exact label
      · exact ihKids spansKids inKids
      · exact ihRest spansRest inRest

/-! ## What may stand below what -/

/-- Each label may stand below the one above it; the roots stand below `parent`. -/
def Legal (allowed : α → α → Prop) (parent : α) : Forest ι α → Prop
  | nil => True
  | cons _ a kids rest => allowed parent a ∧ Legal allowed a kids ∧ Legal allowed parent rest

theorem legal_append {allowed : α → α → Prop} {parent : α} {forest others : Forest ι α} :
    Legal allowed parent (forest ++ others) ↔
      Legal allowed parent forest ∧ Legal allowed parent others := by
  induction forest with
  | nil => simp [Legal]
  | cons n a kids rest _ ih =>
      rw [cons_append, Legal, Legal, ih]
      tauto

theorem Legal.congr {allowed : α → α → Prop} {parent other : α} {forest : Forest ι α}
    (legal : Legal allowed parent forest) (same : ∀ a, allowed parent a → allowed other a) :
    Legal allowed other forest := by
  induction forest with
  | nil => trivial
  | cons n a kids rest _ ih =>
      obtain ⟨first, below, others⟩ := legal
      exact ⟨same a first, below, ih others⟩

/-! ## Rewriting -/

section Rewrite

variable (replace : ι → α → Forest ι α → κ → Forest ι α × κ)

/-- **A forest is rewritten**, from the leaves to the roots and from left to right. A node with
its children rewritten is replaced by a forest; new identities come from a supply. -/
def rewrite : Forest ι α → κ → Forest ι α × κ
  | nil, supply => (nil, supply)
  | cons n a kids rest, supply =>
    let (kids, supply) := rewrite kids supply
    let (replaced, supply) := replace n a kids supply
    let (rest, supply) := rewrite rest supply
    (replaced ++ rest, supply)

theorem rewrite_cons (n : ι) (a : α) (kids rest : Forest ι α) (supply : κ) :
    rewrite replace (cons n a kids rest) supply =
      let below := rewrite replace kids supply
      let here := replace n a below.1 below.2
      let after := rewrite replace rest here.2
      (here.1 ++ after.1, after.2) := rfl

variable {replace}

theorem Legal.rewrite {allowed : α → α → Prop}
    (kept : ∀ parent n a kids supply, allowed parent a → Legal allowed a kids →
      Legal allowed parent (replace n a kids supply).1)
    {parent : α} {forest : Forest ι α} (legal : Legal allowed parent forest) (supply : κ) :
    Legal allowed parent (rewrite replace forest supply).1 := by
  induction forest generalizing parent supply with
  | nil => trivial
  | cons n a kids rest ihKids ihRest =>
      obtain ⟨first, below, others⟩ := legal
      rw [rewrite_cons]
      exact legal_append.mpr ⟨kept _ _ _ _ _ first (ihKids below _), ihRest others _⟩

end Rewrite

/-! ## New identities -/

/-- New nodes of a replacement get the next numbers, and no node occurs twice. -/
structure FreshIds (replace : ℕ → α → Forest ℕ α → ℕ → Forest ℕ α × ℕ) : Prop where
  le : ∀ n a kids supply, supply ≤ (replace n a kids supply).2
  ids : ∀ n a kids supply, ∀ i ∈ (replace n a kids supply).1.ids,
    i ∈ n :: kids.ids ∨ (supply ≤ i ∧ i < (replace n a kids supply).2)
  nodup : ∀ n a kids supply, (n :: kids.ids).Nodup → (∀ i ∈ n :: kids.ids, i < supply) →
    (replace n a kids supply).1.ids.Nodup

/-- A replacement that consists of new nodes. -/
theorem FreshIds.of_new {replace : ℕ → α → Forest ℕ α → ℕ → Forest ℕ α × ℕ}
    (le : ∀ n a kids supply, supply ≤ (replace n a kids supply).2)
    (new : ∀ n a kids supply, ∀ i ∈ (replace n a kids supply).1.ids,
      supply ≤ i ∧ i < (replace n a kids supply).2)
    (nodup : ∀ n a kids supply, (replace n a kids supply).1.ids.Nodup) : FreshIds replace where
  le := le
  ids n a kids supply i member := .inr (new n a kids supply i member)
  nodup n a kids supply _ _ := nodup n a kids supply

/-- Only some nodes are replaced. -/
theorem FreshIds.ite {replace : ℕ → α → Forest ℕ α → ℕ → Forest ℕ α × ℕ} (fresh : FreshIds replace)
    (condition : α → Prop) [DecidablePred condition] : FreshIds fun n a kids supply =>
      if condition a then replace n a kids supply else (.cons n a kids .nil, supply) where
  le n a kids supply := by
    split_ifs
    · exact fresh.le n a kids supply
    · exact Nat.le_refl supply
  ids n a kids supply i member := by
    split_ifs at member ⊢
    · exact fresh.ids n a kids supply i member
    · exact .inl (by simpa using member)
  nodup n a kids supply distinct small := by
    split_ifs
    · exact fresh.nodup n a kids supply distinct small
    · simpa using distinct

variable {replace : ℕ → α → Forest ℕ α → ℕ → Forest ℕ α × ℕ}

theorem FreshIds.le_rewrite (fresh : FreshIds replace) (forest : Forest ℕ α) (supply : ℕ) :
    supply ≤ (rewrite replace forest supply).2 := by
  induction forest generalizing supply with
  | nil => exact Nat.le_refl _
  | cons n a kids rest ihKids ihRest =>
      rw [rewrite_cons]
      exact Nat.le_trans (Nat.le_trans (ihKids supply) (fresh.le _ _ _ _)) (ihRest _)

/-- **What holds of all nodes of a rewritten forest**: it holds of what is put in the place of each
node, if it holds of what is below. -/
theorem FreshIds.forall_nodes_rewrite (fresh : FreshIds replace) (source : ℕ × α → Prop)
    {property : ℕ × α → Prop} {base : ℕ}
    (kept : ∀ n a kids supply, base ≤ supply → source (n, a) → (∀ node ∈ kids.nodes, property node) →
      ∀ node ∈ (replace n a kids supply).1.nodes, property node)
    {forest : Forest ℕ α} (holds : ∀ node ∈ forest.nodes, source node) {supply : ℕ}
    (le : base ≤ supply) : ∀ node ∈ (rewrite replace forest supply).1.nodes, property node := by
  induction forest generalizing supply with
  | nil =>
      intro node member
      cases member
  | cons n a kids rest ihKids ihRest =>
      rw [nodes_cons, List.forall_mem_cons, List.forall_mem_append] at holds
      obtain ⟨here, below, others⟩ := holds
      have first := Nat.le_trans le (fresh.le_rewrite kids supply)
      rw [rewrite_cons, nodes_append, List.forall_mem_append]
      exact ⟨kept _ _ _ _ first here (ihKids below le),
        ihRest others (Nat.le_trans first (fresh.le _ _ _ _))⟩

/-- **The nodes of a rewritten forest** are its own, or new. -/
theorem FreshIds.ids_rewrite (fresh : FreshIds replace) (forest : Forest ℕ α) (supply : ℕ) :
    ∀ i ∈ (rewrite replace forest supply).1.ids,
      i ∈ forest.ids ∨ (supply ≤ i ∧ i < (rewrite replace forest supply).2) := by
  induction forest generalizing supply with
  | nil =>
      intro i member
      cases member
  | cons n a kids rest ihKids ihRest =>
      intro i member
      have first := fresh.le_rewrite kids supply
      have second := fresh.le n a (rewrite replace kids supply).1 (rewrite replace kids supply).2
      have third := fresh.le_rewrite rest
        (replace n a (rewrite replace kids supply).1 (rewrite replace kids supply).2).2
      rw [rewrite_cons] at member ⊢
      simp only [ids_append, ids_cons, List.mem_append, List.mem_cons] at member ⊢
      rcases member with here | after
      · rcases fresh.ids _ _ _ _ i here with own | new
        · rcases List.mem_cons.mp own with rfl | below
          · exact .inl (.inl rfl)
          · rcases ihKids supply i below with old | new
            · exact .inl (.inr (.inl old))
            · exact .inr (by omega)
        · exact .inr (by omega)
      · rcases ihRest _ i after with old | new
        · exact .inl (.inr (.inr old))
        · exact .inr (by omega)

/-- An old node that was not there is not there afterwards. -/
theorem FreshIds.not_mem_rewrite (fresh : FreshIds replace) {forest : Forest ℕ α} {supply i : ℕ}
    (old : i < supply) (absent : i ∉ forest.ids) : i ∉ (rewrite replace forest supply).1.ids := by
  intro member
  rcases fresh.ids_rewrite forest supply i member with own | new
  · exact absent own
  · exact absurd old (Nat.not_lt.mpr new.1)

/-- **No node occurs twice** in a rewritten forest. -/
theorem FreshIds.nodup_rewrite (fresh : FreshIds replace) {forest : Forest ℕ α} {supply : ℕ}
    (distinct : forest.ids.Nodup) (old : ∀ i ∈ forest.ids, i < supply) :
    (rewrite replace forest supply).1.ids.Nodup := by
  induction forest generalizing supply with
  | nil => exact distinct
  | cons n a kids rest ihKids ihRest =>
      simp only [ids_cons, List.nodup_cons, List.mem_append, not_or, List.nodup_append] at distinct
      obtain ⟨⟨notBelow, notBeside⟩, distinctKids, distinctRest, apart⟩ := distinct
      simp only [ids_cons, List.mem_cons, List.mem_append] at old
      have oldHere := old n (.inl rfl)
      have oldKids : ∀ i ∈ kids.ids, i < supply := fun i member => old i (.inr (.inl member))
      have oldRest : ∀ i ∈ rest.ids, i < supply := fun i member => old i (.inr (.inr member))
      have first := fresh.le_rewrite kids supply
      have second := fresh.le n a (rewrite replace kids supply).1 (rewrite replace kids supply).2
      have below := fresh.ids_rewrite kids supply
      have here := fresh.ids n a (rewrite replace kids supply).1 (rewrite replace kids supply).2
      have after := fresh.ids_rewrite rest
        (replace n a (rewrite replace kids supply).1 (rewrite replace kids supply).2).2
      rw [rewrite_cons]
      simp only [ids_append, List.nodup_append]
      refine ⟨fresh.nodup _ _ _ _ ?_ ?_, ihRest distinctRest fun i member => ?_, ?_⟩
      · refine List.nodup_cons.mpr ⟨fun member => ?_, ihKids distinctKids oldKids⟩
        rcases below n member with own | new
        · exact notBelow own
        · omega
      · intro i member
        rcases List.mem_cons.mp member with rfl | inKids
        · omega
        · rcases below i inKids with own | new
          · exact Nat.lt_of_lt_of_le (oldKids i own) first
          · exact new.2
      · exact Nat.lt_of_lt_of_le (oldRest i member) (Nat.le_trans first second)
      · intro i inHere j inAfter
        rintro rfl
        rcases after i inAfter with inRest | new
        · have small := oldRest i inRest
          rcases here i inHere with own | new
          · rcases List.mem_cons.mp own with rfl | inKids
            · exact notBeside inRest
            · rcases below i inKids with own | new
              · exact apart i own i inRest rfl
              · omega
          · omega
        · rcases here i inHere with own | newHere
          · rcases List.mem_cons.mp own with rfl | inKids
            · omega
            · rcases below i inKids with own | newBelow
              · have small := oldKids i own
                omega
              · omega
          · omega

/-! ## Replacing in place -/

/-- **A forest is replaced in place**: the children of `p` are those of before, the new trees and
those of after. What has a number below `k` and is none of the old nodes stays. -/
structure Replaced (shape shape' : Shape ℕ α) (k p : ℕ) (before after : List ℕ)
    (old new : Forest ℕ α) : Prop where
  kids : shape'.kids p = before ++ new.roots ++ after
  parent : shape'.label p = shape.label p
  spans : Spans shape' new
  frame : ∀ i < k, i ∉ old.ids → i ≠ p →
    shape'.kids i = shape.kids i ∧ shape'.label i = shape.label i

/-- What is apart stays where it is. -/
theorem Replaced.spans_of_apart {shape shape' : Shape ℕ α} {k p : ℕ} {before after : List ℕ}
    {old new other : Forest ℕ α} (replaced : Replaced shape shape' k p before after old new)
    (spans : Spans shape other) (small : ∀ i ∈ other.ids, i < k)
    (apart : ∀ i ∈ other.ids, i ∉ old.ids) (outside : p ∉ other.ids) : Spans shape' other :=
  spans.congr fun i member => replaced.frame i (small i member) (apart i member) fun same =>
    outside (same ▸ member)

/-- **One tree after the other is replaced**: below the first root, at the root, and beside it. -/
theorem Replaced.cons (fresh : FreshIds replace) {shape shape₁ shape₂ shape₃ : Shape ℕ α}
    {supply p n : ℕ} {a : α} {before after : List ℕ} {kids rest : Forest ℕ α}
    (distinct : (Forest.cons n a kids rest).ids.Nodup)
    (small : ∀ i ∈ (Forest.cons n a kids rest).ids, i < supply) (smallParent : p < supply)
    (outside : p ∉ (Forest.cons n a kids rest).ids) :
    let below := rewrite replace kids supply
    let here := replace n a below.1 below.2
    let beside := rewrite replace rest here.2
    Replaced shape shape₁ supply n [] [] kids below.1 →
    Replaced shape₁ shape₂ below.2 p before (rest.roots ++ after) (.cons n a below.1 .nil) here.1 →
    Replaced shape₂ shape₃ here.2 p (before ++ here.1.roots) after rest beside.1 →
    Replaced shape shape₃ supply p before after (.cons n a kids rest) (here.1 ++ beside.1) := by
  intro below here beside first second third
  have grows : supply ≤ below.2 := fresh.le_rewrite kids supply
  have growsMore : below.2 ≤ here.2 := fresh.le n a below.1 below.2
  have belowIds : ∀ i ∈ below.1.ids, i ∈ kids.ids ∨ (supply ≤ i ∧ i < below.2) :=
    fresh.ids_rewrite kids supply
  have hereIds : ∀ i ∈ here.1.ids, i ∈ n :: below.1.ids ∨ (below.2 ≤ i ∧ i < here.2) :=
    fresh.ids n a below.1 below.2
  simp only [ids_cons, List.mem_cons, List.mem_append, not_or] at small outside
  simp only [ids_cons, List.nodup_cons, List.mem_append, not_or, List.nodup_append] at distinct
  obtain ⟨notSelf, notBelow, notBeside⟩ := outside
  obtain ⟨⟨rootNotBelow, rootNotBeside⟩, -, -, apart⟩ := distinct
  have oldOrNew {i : ℕ} (member : i ∈ here.1.ids) :
      i = n ∨ i ∈ kids.ids ∨ (supply ≤ i ∧ i < here.2) := by
    rcases hereIds i member with own | new
    · rcases List.mem_cons.mp own with root | inBelow
      · exact .inl root
      · rcases belowIds i inBelow with old | new
        · exact .inr (.inl old)
        · exact .inr (.inr (by omega))
    · exact .inr (.inr (by omega))
  constructor
  · rw [third.kids, roots_append, List.append_assoc before]
  · rw [third.parent, second.parent]
    exact (first.frame p smallParent notBelow notSelf).2
  · refine spans_append.mpr ⟨third.spans_of_apart second.spans ?_ ?_ ?_, third.spans⟩
    · intro i member
      rcases oldOrNew member with rfl | old | new
      · exact Nat.lt_of_lt_of_le (small i (.inl rfl)) (Nat.le_trans grows growsMore)
      · exact Nat.lt_of_lt_of_le (small i (.inr (.inl old))) (Nat.le_trans grows growsMore)
      · exact new.2
    · intro i member inRest
      rcases oldOrNew member with rfl | old | new
      · exact rootNotBeside inRest
      · exact apart i old i inRest rfl
      · exact absurd (small i (.inr (.inr inRest))) (Nat.not_lt.mpr new.1)
    · intro member
      rcases oldOrNew member with self | old | new
      · exact notSelf self
      · exact notBelow old
      · exact absurd smallParent (Nat.not_lt.mpr new.1)
  · intro i smallHere elsewhere other
    simp only [ids_cons, List.mem_cons, List.mem_append, not_or] at elsewhere
    obtain ⟨notRoot, notInKids, notInRest⟩ := elsewhere
    have notInBelow : i ∉ below.1.ids := by
      intro member
      rcases belowIds i member with old | new
      · exact notInKids old
      · exact absurd smallHere (Nat.not_lt.mpr new.1)
    obtain ⟨kids₁, label₁⟩ := first.frame i smallHere notInKids notRoot
    obtain ⟨kids₂, label₂⟩ := second.frame i (Nat.lt_of_lt_of_le smallHere grows)
      (by simp [notRoot, notInBelow]) other
    obtain ⟨kids₃, label₃⟩ := third.frame i
      (Nat.lt_of_lt_of_le smallHere (Nat.le_trans grows growsMore)) notInRest other
    exact ⟨kids₃.trans (kids₂.trans kids₁), label₃.trans (label₂.trans label₁)⟩

/-- Trees are put behind others that were put there before. -/
theorem Replaced.append {shape shape₁ shape₂ : Shape ℕ α} {k k₁ p : ℕ} {before after : List ℕ}
    {first second : Forest ℕ α} (one : Replaced shape shape₁ k p before after .nil first)
    (two : Replaced shape₁ shape₂ k₁ p (before ++ first.roots) after .nil second) (le : k ≤ k₁)
    (small : ∀ i ∈ first.ids, i < k₁) (outside : p ∉ first.ids) :
    Replaced shape shape₂ k p before after .nil (first ++ second) where
  kids := by rw [two.kids, roots_append, List.append_assoc before]
  parent := two.parent.trans one.parent
  spans := spans_append.mpr ⟨two.spans_of_apart one.spans small (fun _ _ => List.not_mem_nil) outside,
    two.spans⟩
  frame i old notOld other := by
    obtain ⟨kids₁, label₁⟩ := one.frame i old notOld other
    obtain ⟨kids₂, label₂⟩ := two.frame i (Nat.lt_of_lt_of_le old le) notOld other
    exact ⟨kids₂.trans kids₁, label₂.trans label₁⟩

/-- A node before which there is another forest is taken away. -/
theorem Replaced.remove {shape shape₁ : Shape ℕ α} {k p n : ℕ} {a : α} {before after : List ℕ}
    {old kids new : Forest ℕ α} (replaced : Replaced shape shape₁ k p before (n :: after) old new)
    (fewer : old.ids ⊆ n :: kids.ids) (other : p ≠ n) (absent : n ∉ new.ids)
    (outside : p ∉ new.ids) :
    Replaced shape ((shape₁.setKids p (before ++ new.roots ++ after)).setLabel n none) k p before
      after (.cons n a kids .nil) new where
  kids := by simp
  parent := by simpa [other] using replaced.parent
  spans := replaced.spans.congr fun i member => by
    have notRemoved : i ≠ n := fun same => absent (same ▸ member)
    have notParent : i ≠ p := fun same => outside (same ▸ member)
    simp [notRemoved, notParent]
  frame i small notOld notParent := by
    rw [ids_cons, ids_nil, List.append_nil] at notOld
    have notRemoved : i ≠ n := fun same => notOld (by simp [same])
    simpa [notRemoved, notParent] using
      replaced.frame i small (fun member => notOld (fewer member)) notParent

end Forest

end HashArchive
