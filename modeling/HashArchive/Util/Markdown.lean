import HashArchive.Deps.CmarkIterator
import HashArchive.Foundations.Patterns

/-!
# Markdown

A document that was read from Markdown is changed before it is shown, in five passes
(`mdProcess`): raw HTML is turned into text, first the blocks and then the inlines; what looks
like a URL becomes a link, with a link to the URL itself behind it; images from elsewhere become
links; and links to `hash:` URIs are sent to the page of their sources, with the original URI
behind it.

Each pass is a loop over the events of an iterator while it puts nodes into the tree, moves
them and frees them. Memory does not run out. `QSEscape` is a parameter.
-/

set_option autoImplicit false

namespace HashArchive.Markdown

open Cmark

/-! ## The source -/

/-- `HASH_INFO_MSG` -/
def hashInfoMsg : Str := "Hash URI (right click and choose copy link)".toList

/-- `0 == strncasecmp(text, STR_LEN(word))` -/
def startsWith (word text : Str) : Bool :=
  (text.take word.length).map Char.toLower == word.map Char.toLower

/-- `superscript` -/
def superscript (label title link : Str) : Program Memory Ref := do
  let node ← newNode true .customInline
  let a ← newNode true .link
  let _ ← cmarkNodeSetUrl a (some link)
  let _ ← cmarkNodeSetTitle a (some title)
  let op ← newNode true .htmlInline
  let _ ← cmarkNodeSetLiteral op (some "<sup>[".toList)
  let ed ← newNode true .htmlInline
  let _ ← cmarkNodeSetLiteral ed (some "]</sup>".toList)
  let face ← newNode true .text
  let _ ← cmarkNodeSetLiteral face (some label)
  let _ ← cmarkNodeAppendChild a face
  let _ ← cmarkNodeAppendChild node op
  let _ ← cmarkNodeAppendChild node a
  let _ ← cmarkNodeAppendChild node ed
  pure node

/-- What a pass does at the nodes of some types, and at no other event. -/
def atNode (wanted : EventType) (types : NodeType → Bool) (act : Ref → Program Memory Unit)
    (event : EventType) : Program Memory Unit :=
  if event = wanted then do
    match ← cmarkIterGetNode with
    | none => pure ()
    | some node => do
      let type ← cmarkNodeGetType node
      if types type then act node else pure ()
  else pure ()

/-- The body of `md_escape`, at a block of HTML. -/
def mdEscapeNode (node : Ref) : Program Memory Unit := do
  let str ← cmarkNodeGetLiteral node
  let p ← cmarkNodeNew .paragraph
  let text ← cmarkNodeNew .text
  let _ ← cmarkNodeSetLiteral text str
  let _ ← cmarkNodeAppendChild p text
  let _ ← cmarkNodeInsertBefore node p
  cmarkNodeFree node

/-- `md_escape` -/
def mdEscape : Program Memory Unit := eachEvent (atNode .enter (· == .htmlBlock) mdEscapeNode)

/-- The body of `md_escape_inline`, at HTML in a line. -/
def mdEscapeInlineNode (node : Ref) : Program Memory Unit := do
  let str ← cmarkNodeGetLiteral node
  let text ← cmarkNodeNew .text
  let _ ← cmarkNodeSetLiteral text str
  let _ ← cmarkNodeInsertBefore node text
  cmarkNodeFree node

/-- `md_escape_inline` -/
def mdEscapeInline : Program Memory Unit :=
  eachEvent (atNode .enter (· == .htmlInline) mdEscapeInlineNode)

section Linkify

/-- `[[:space:]]` -/
def isSpace (c : Char) : Bool := c == ' ' || (9 ≤ c.toNat && c.toNat ≤ 13)

/-- `[a-z]` with `REG_ICASE` -/
def isLetter (c : Char) : Bool := c.isAlpha

/-- `[^[:space:]()<>]+` -/
def linkRun : Pattern :=
  .many1 (.char fun c => !isSpace c && !"()<>".toList.contains c)

/-- `\(([^[:space:]()<>]+|(\([^[:space:]()<>]+\)))*\)` -/
def linkParens : Pattern :=
  .seq (.text ['(']) (.seq
    (.many (.either linkRun (.seq (.text ['(']) (.seq linkRun (.text [')'])))))
    (.text [')']))

/-- The bytes that a link does not end with; the quotation marks are several bytes each. -/
def linkNoEnd : Str :=
  "][`!()\x7b\x7d;:'\".,<>?".toList ++
    [0xC2, 0xAB, 0xC2, 0xBB, 0xE2, 0x80, 0x9C, 0xE2, 0x80, 0x9D, 0xE2, 0x80, 0x98, 0xE2, 0x80,
      0x99].map Char.ofNat

/-- The expression of `md_autolink`. -/
def linkify : Pattern :=
  .seq
    (.either
      (.seq (.char isLetter) (.seq
        (.many1 (.char fun c => isLetter c || c.isDigit || c == '_' || c == '-'))
        (.seq (.text [':'])
          (.either (.between (.text ['/']) 1 3)
            (.char fun c => isLetter c || c.isDigit || c == '%')))))
      (.either
        (.seq (.between (.char fun c => c.toLower == 'w') 3 3)
          (.seq (.between (.char Char.isDigit) 0 3) (.text ['.'])))
        (.seq (.many1 (.char fun c => isLetter c || c.isDigit || c == '.' || c == '-'))
          (.seq (.text ['.']) (.seq (.between (.char isLetter) 2 4) (.text ['/']))))))
    (.seq (.many1 (.either linkRun linkParens))
      (.either linkParens (.char fun c => !isSpace c && !linkNoEnd.contains c)))

end Linkify

/-- The body of the `while` of `md_autolink`; the position is an offset into the text. -/
def mdAutolinkMatch (node : Ref) (str : Str) (pos : ℕ) : Program Memory (ℕ ⊕ ℕ) :=
  match linkify.search (str.drop pos) with
  | none => pure (.inr pos)
  | some (loc, len) => do
    let pfx := (str.drop pos).take loc
    let linkAbs := ((str.drop pos).drop loc).take len
    let linkRel := "/history/".toList ++ linkAbs
    let text ← cmarkNodeNew .text
    let _ ← cmarkNodeSetLiteral text (some pfx)
    let link ← cmarkNodeNew .link
    let _ ← cmarkNodeSetUrl link (some linkRel)
    let sup ← superscript "^".toList [] linkAbs
    let face ← cmarkNodeNew .text
    let _ ← cmarkNodeSetLiteral face (some linkAbs)
    let _ ← cmarkNodeAppendChild link face
    let _ ← cmarkNodeInsertBefore node text
    let _ ← cmarkNodeInsertBefore node link
    let _ ← cmarkNodeInsertBefore node sup
    pure (.inl (pos + (loc + len)))

/-- The body of `md_autolink`, at a text. -/
def mdAutolinkNode (node : Ref) : Program Memory Unit := do
  match ← cmarkNodeGetLiteral node with
  | none => .fail .outOfBounds
  | some str => do
    let pos ← .loop (mdAutolinkMatch node str) 0
    if pos ≠ 0 then do
      let text ← cmarkNodeNew .text
      let _ ← cmarkNodeSetLiteral text (some (str.drop pos))
      let _ ← cmarkNodeInsertBefore node text
      cmarkNodeFree node
    else pure ()

/-- `md_autolink` -/
def mdAutolink : Program Memory Unit := eachEvent (atNode .enter (· == .text) mdAutolinkNode)

/-- The URLs that an image is let have. -/
def isInternal (uri : Option Str) : Bool :=
  uri.any fun uri => startsWith "hash:".toList uri || startsWith "data:".toList uri

/-- The body of the inner `for(;;)` of `md_block_external_images`. -/
def mdMoveChild (node link : Ref) (_ : Unit) : Program Memory (Unit ⊕ Unit) := do
  match ← cmarkNodeFirstChild node with
  | none => pure (.inr ())
  | some child => do
    let _ ← cmarkNodeAppendChild link child
    pure (.inl ())

/-- The body of `md_block_external_images`, at an image. -/
def mdBlockExternalImagesNode (node : Ref) : Program Memory Unit := do
  let uri ← cmarkNodeGetUrl node
  if isInternal uri then pure ()
  else do
    let link ← cmarkNodeNew .link
    let text ← cmarkNodeNew .text
    let _ ← cmarkNodeSetUrl link uri
    .loop (mdMoveChild node link) ()
    let first ← cmarkNodeFirstChild link
    let _ ← cmarkNodeSetLiteral text
      (some (if first.isSome then " (external image)".toList else "(external image)".toList))
    let _ ← cmarkNodeAppendChild link text
    let _ ← cmarkNodeInsertBefore node link
    cmarkNodeFree node

/-- `md_block_external_images` -/
def mdBlockExternalImages : Program Memory Unit :=
  eachEvent (atNode .exit (· == .image) mdBlockExternalImagesNode)

section Hashes

variable (qsEscape : Str → Str)

/-- The body of `md_convert_hashes`, at a link or an image. -/
def mdConvertHashesNode (node : Ref) : Program Memory Unit := do
  match ← cmarkNodeGetUrl node with
  | none => pure ()
  | some uri =>
    if startsWith "hash:".toList uri then do
      let sup ← superscript "#".toList hashInfoMsg uri
      let _ ← cmarkNodeInsertAfter node sup
      cmarkIterReset sup .exit
      let _ ← cmarkNodeSetUrl node (some ("/sources/".toList ++ qsEscape uri))
      pure ()
    else pure ()

/-- `md_convert_hashes` -/
def mdConvertHashes : Program Memory Unit :=
  eachEvent (atNode .exit (fun type => type == .link || type == .image)
    (mdConvertHashesNode qsEscape))

/-- Each pass begins at the root. The first event is missed. -/
def mdRun (node : Ref) (pass : Program Memory Unit) : Program Memory Unit := do
  cmarkIterReset node .enter
  pass

/-- `md_process` -/
def mdProcess (node : Ref) : Program Memory ℕ := do
  cmarkIterNew node
  mdRun node mdEscape
  mdRun node mdEscapeInline
  mdRun node mdAutolink
  mdRun node mdBlockExternalImages
  mdRun node (mdConvertHashes qsEscape)
  pure 0

end Hashes

end HashArchive.Markdown
