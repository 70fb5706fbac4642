import HashArchive.Foundations.Programs
import Mathlib.Data.Nat.Notation

/-!
# Nodes of a document

The nodes of `cmark` are records in memory that point to each other: to the next and the
previous sibling, to the parent, and to the first and the last child. The functions of
`node.c` change these pointers, and the iterator of `iterator.c` follows them. It
has always looked ahead: when a node is reached, the event after it is already chosen.

A pointer that is not NULL is a number (`Ref`). A node that was freed is no longer there, and
to follow a pointer to it, or NULL, is a fault. All nodes are of one allocator.
-/

set_option autoImplicit false

namespace HashArchive.Cmark

/-- A pointer that is not NULL. -/
abbrev Ref : Type := ℕ

/-- `cmark_node_type`. -/
inductive NodeType where
  | document
  | blockQuote
  | list
  | item
  | codeBlock
  | htmlBlock
  | customBlock
  | paragraph
  | heading
  | thematicBreak
  | text
  | softbreak
  | linebreak
  | code
  | htmlInline
  | customInline
  | emph
  | strong
  | link
  | image
deriving DecidableEq, Repr

/-- `S_is_inline`. -/
def NodeType.isInline : NodeType → Bool
  | .text | .softbreak | .linebreak | .code | .htmlInline | .customInline | .emph | .strong
  | .link | .image => true
  | _ => false

/-- `S_is_block`. -/
def NodeType.isBlock (type : NodeType) : Bool := !type.isInline

/-- `S_leaf_mask`. -/
def NodeType.isLeaf : NodeType → Bool
  | .htmlBlock | .thematicBreak | .codeBlock | .text | .softbreak | .linebreak | .code
  | .htmlInline => true
  | _ => false

/-- What a node is, apart from its place. -/
structure Content where
  type : NodeType
  literal : Str
  url : Str
  title : Str
  /-- A mark of the model: the node was made by `superscript`. Nothing reads it. -/
  superscript : Bool
deriving DecidableEq, Repr

/-- `struct cmark_node`. -/
structure Node where
  next : Option Ref
  prev : Option Ref
  parent : Option Ref
  firstChild : Option Ref
  lastChild : Option Ref
  content : Content
deriving DecidableEq, Repr

/-- `cmark_event_type`. -/
inductive EventType where
  | none
  | done
  | enter
  | exit
deriving DecidableEq, Repr

/-- `cmark_iter_state`. -/
structure IterState where
  evType : EventType
  node : Option Ref
deriving DecidableEq, Repr

/-- `struct cmark_iter`. -/
structure Iter where
  root : Ref
  cur : IterState
  next : IterState
deriving DecidableEq, Repr

/-- **The memory**: the nodes that there are, the address of the next one, and the
iterator. -/
structure Memory where
  nodes : Ref → Option Node
  fresh : Ref
  iter : Iter

/-- One node is changed, if it is there. -/
def Memory.adjust (m : Memory) (n : Ref) (f : Node → Node) : Memory :=
  { m with nodes := fun i => if i = n then (m.nodes i).map f else m.nodes i }

/-! ## Following pointers -/

/-- `*n`. -/
def load (n : Ref) : Program Memory Node :=
  .step fun m =>
    match m.nodes n with
    | some node => .ok (node, m)
    | none => .error (.fault .outOfBounds)

/-- Some fields of `*n` are set. -/
def change (n : Ref) (f : Node → Node) : Program Memory Unit :=
  .step fun m =>
    match m.nodes n with
    | some _ => .ok ((), m.adjust n f)
    | none => .error (.fault .outOfBounds)

/-- `if(p) act(p)`. -/
def ifSome (p : Option Ref) (act : Ref → Program Memory Unit) : Program Memory Unit :=
  match p with
  | some n => act n
  | none => pure ()

/-- `if(!p) act`. -/
def unlessSome (p : Option Ref) (act : Program Memory Unit) : Program Memory Unit :=
  match p with
  | some _ => pure ()
  | none => act

/-! ## Nodes -/

/-- What `calloc` and `cmark_node_new` leave in a node. -/
def blank (superscript : Bool) (type : NodeType) : Node :=
  ⟨none, none, none, none, none, ⟨type, [], [], [], superscript⟩⟩

/-- `cmark_node_new`, with the mark of the model. -/
def newNode (superscript : Bool) (type : NodeType) : Program Memory Ref :=
  .step fun m => .ok (m.fresh, { m with
    nodes := fun i => if i = m.fresh then some (blank superscript type) else m.nodes i
    fresh := m.fresh + 1 })

/-- `cmark_node_new`. -/
def cmarkNodeNew (type : NodeType) : Program Memory Ref := newNode false type

/-- `cmark_node_get_type`. -/
def cmarkNodeGetType (node : Ref) : Program Memory NodeType := do
  let self ← load node
  pure self.content.type

/-- `cmark_node_first_child`. -/
def cmarkNodeFirstChild (node : Ref) : Program Memory (Option Ref) := do
  let self ← load node
  pure self.firstChild

/-- A node that has a literal. -/
def NodeType.hasLiteral : NodeType → Bool
  | .htmlBlock | .text | .htmlInline | .code | .codeBlock => true
  | _ => false

/-- A node that has a URL and a title. -/
def NodeType.hasUrl : NodeType → Bool
  | .link | .image => true
  | _ => false

/-- `cmark_node_get_literal`. -/
def cmarkNodeGetLiteral (node : Ref) : Program Memory (Option Str) := do
  let self ← load node
  pure (if self.content.type.hasLiteral then some self.content.literal else none)

/-- `cmark_node_set_literal`; NULL is set as the empty string. -/
def cmarkNodeSetLiteral (node : Ref) (content : Option Str) : Program Memory Bool := do
  let self ← load node
  if self.content.type.hasLiteral then do
    change node fun n => { n with content := { n.content with literal := content.getD [] } }
    pure true
  else pure false

/-- `cmark_node_get_url`. -/
def cmarkNodeGetUrl (node : Ref) : Program Memory (Option Str) := do
  let self ← load node
  pure (if self.content.type.hasUrl then some self.content.url else none)

/-- `cmark_node_set_url`. -/
def cmarkNodeSetUrl (node : Ref) (url : Option Str) : Program Memory Bool := do
  let self ← load node
  if self.content.type.hasUrl then do
    change node fun n => { n with content := { n.content with url := url.getD [] } }
    pure true
  else pure false

/-- `cmark_node_set_title`. -/
def cmarkNodeSetTitle (node : Ref) (title : Option Str) : Program Memory Bool := do
  let self ← load node
  if self.content.type.hasUrl then do
    change node fun n => { n with content := { n.content with title := title.getD [] } }
    pure true
  else pure false

/-! ## Trees -/

/-- The `switch` of `S_can_contain`, and the check of the child before it. -/
def mayContain (node child : NodeType) : Bool :=
  if child = .document then false
  else
    match node with
    | .document | .blockQuote | .item => child.isBlock && child != .item
    | .list => child == .item
    | .customBlock => true
    | .paragraph | .heading | .emph | .strong | .link | .image | .customInline => child.isInline
    | _ => false

/-- The loop of `S_can_contain`: whether the child is neither the node nor above it. -/
def notAbove (child node : Ref) : Program Memory Bool :=
  .loop (fun cur => do
    if cur = child then pure (.inr false)
    else do
      let self ← load cur
      match self.parent with
      | some parent => pure (.inl parent)
      | none => pure (.inr true)) node

/-- `S_can_contain`. -/
def sCanContain (node child : Ref) : Program Memory Bool := do
  if ← notAbove child node then do
    let inner ← load child
    let outer ← load node
    pure (mayContain outer.content.type inner.content.type)
  else pure false

/-- `S_node_unlink`. -/
def sNodeUnlink (node : Ref) : Program Memory Unit := do
  let self ← load node
  ifSome self.prev fun prev => change prev fun n => { n with next := self.next }
  ifSome self.next fun next => change next fun n => { n with prev := self.prev }
  ifSome self.parent fun parent => change parent fun n => { n with
    firstChild := if n.firstChild = some node then self.next else n.firstChild
    lastChild := if n.lastChild = some node then self.prev else n.lastChild }

/-- `cmark_node_insert_before`. -/
def cmarkNodeInsertBefore (node sibling : Ref) : Program Memory Bool := do
  let self ← load node
  match self.parent with
  | none => pure false
  | some parent => do
    if ← sCanContain parent sibling then do
      sNodeUnlink sibling
      let self ← load node
      let oldPrev := self.prev
      ifSome oldPrev fun oldPrev => change oldPrev fun n => { n with next := some sibling }
      change sibling fun n => { n with prev := oldPrev, next := some node }
      change node fun n => { n with prev := some sibling }
      change sibling fun n => { n with parent := some parent }
      unlessSome oldPrev (change parent fun n => { n with firstChild := some sibling })
      pure true
    else pure false

/-- `cmark_node_insert_after`. -/
def cmarkNodeInsertAfter (node sibling : Ref) : Program Memory Bool := do
  let self ← load node
  match self.parent with
  | none => pure false
  | some parent => do
    if ← sCanContain parent sibling then do
      sNodeUnlink sibling
      let self ← load node
      let oldNext := self.next
      ifSome oldNext fun oldNext => change oldNext fun n => { n with prev := some sibling }
      change sibling fun n => { n with next := oldNext, prev := some node }
      change node fun n => { n with next := some sibling }
      change sibling fun n => { n with parent := some parent }
      unlessSome oldNext (change parent fun n => { n with lastChild := some sibling })
      pure true
    else pure false

/-- `cmark_node_append_child`. -/
def cmarkNodeAppendChild (node child : Ref) : Program Memory Bool := do
  if ← sCanContain node child then do
    sNodeUnlink child
    let self ← load node
    let oldLastChild := self.lastChild
    change child fun n => { n with next := none, prev := oldLastChild, parent := some node }
    change node fun n => { n with lastChild := some child }
    ifSome oldLastChild fun oldLastChild => change oldLastChild fun n => { n with next := some child }
    unlessSome oldLastChild (change node fun n => { n with firstChild := some child })
    pure true
  else pure false

/-- `free`. -/
def release (n : Ref) : Program Memory Unit :=
  .modify fun m => { m with nodes := fun i => if i = n then none else m.nodes i }

/-- `S_free_nodes`. -/
def sFreeNodes (e : Ref) : Program Memory Unit :=
  .loop (fun e =>
    match e with
    | none => pure (.inr ())
    | some e => do
      let self ← load e
      ifSome self.lastChild fun last => do
        -- Splice children into list
        change last fun n => { n with next := self.next }
        change e fun n => { n with next := n.firstChild }
      let self ← load e
      release e
      pure (.inl self.next)) (some e)

/-- `cmark_node_free`. -/
def cmarkNodeFree (node : Ref) : Program Memory Unit := do
  sNodeUnlink node
  change node fun n => { n with next := none }
  sFreeNodes node

/-! ## The iterator -/

/-- `cmark_iter_new`. -/
def cmarkIterNew (root : Ref) : Program Memory Unit :=
  .modify fun m => { m with iter := ⟨root, ⟨.none, none⟩, ⟨.enter, some root⟩⟩ }

/-- The event after an event at a node. -/
def rollForward (root : Ref) (evType : EventType) (node : Ref) (self : Node) :
    Program Memory IterState :=
  if evType = .enter ∧ self.content.type.isLeaf = false then
    match self.firstChild with
    | none => pure ⟨.exit, some node⟩
    | some child => pure ⟨.enter, some child⟩
  else if node = root then pure ⟨.done, none⟩
  else
    match self.next with
    | some next => pure ⟨.enter, some next⟩
    | none =>
      match self.parent with
      | some parent => pure ⟨.exit, some parent⟩
      | none => .fail .assertion

/-- `cmark_iter_next`. -/
def cmarkIterNext : Program Memory EventType := do
  let m ← .get
  let cur := m.iter.next
  .modify fun m => { m with iter := { m.iter with cur := cur } }
  if cur.evType = .done then pure cur.evType
  else
    match cur.node with
    | none => .fail .outOfBounds
    | some node => do
      let self ← load node
      let next ← rollForward m.iter.root cur.evType node self
      .modify fun m => { m with iter := { m.iter with next := next } }
      pure cur.evType

/-- `cmark_iter_reset`. -/
def cmarkIterReset (current : Ref) (eventType : EventType) : Program Memory Unit := do
  .modify fun m => { m with iter := { m.iter with next := ⟨eventType, some current⟩ } }
  let _ ← cmarkIterNext
  pure ()

/-- `cmark_iter_get_node`. -/
def cmarkIterGetNode : Program Memory (Option Ref) := do
  let m ← .get
  pure m.iter.cur.node

end HashArchive.Cmark
