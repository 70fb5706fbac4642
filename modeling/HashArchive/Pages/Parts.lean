import HashArchive.Util.HashUri
import HashArchive.Util.Html

/-!
# Parts of pages

`link_html`, `direct_link_html` and `item_html` of `page_parts.c` put an encoded URI into a
format, in text and in attribute values. `html_encode_exact` says what encoding is for: it
fills its memory exactly, nothing in the result can be taken for markup, nothing is lost,
and the parts have the same tags and attribute boundaries for each URI.
-/

set_option autoImplicit false

namespace HashArchive.Html

open Hash Markup

/-- The format of `link_html` for a type of link. -/
def linkFormat : HashUriType → Str
  | .linkNone => "<span>%s</span>".toList
  | .linkRaw => "<a href=\"%s\">%s</a>".toList
  | .linkWebUrl => "<a href=\"/history/%s\">%s</a>".toList ++
    "<sup>[<a href=\"%s\" rel=\"nofollow\" target=\"_blank\">^</a>]</sup>".toList
  | .linkHashUri | .linkNamedInfo | .linkMagnet => "<a href=\"/sources/%s\">%s</a>".toList ++
    "<sup>[<a href=\"%s\" rel=\"nofollow\" target=\"_blank\">#</a>]</sup>".toList
  | .linkMultihash | .linkPrefix | .linkSsb => "<a href=\"/sources/%s\">%s</a>".toList

/-- `link_html`. -/
def linkHtml (memory : Stack) (t : HashUriType) (uriUnsafe : Option Str) :
    Result (Option Str) := do
  let escaped ← htmlEncode memory uriUnsafe
  match escaped with
  | none => .ok none
  | some escaped => .ok (some (printf escaped (linkFormat t)))

/-- `item_html`. -/
def itemHtml (memory : Stack) (type : HashUriType) (labelEscaped : Str) (uriUnsafe : Option Str)
    (deprecated : Bool) : Result (Option Str) := do
  let cls := if deprecated then "deprecated".toList else []
  let link ← linkHtml memory type uriUnsafe
  match link with
  | none => .ok none
  | some link => .ok (some ("<li class=\"break ".toList ++ cls ++ "\">".toList ++ labelEscaped ++
      link ++ "</li>".toList))

/-- The format of `direct_link_html` for a type of link, unless the type is unknown to it. -/
def directLinkFormat : HashUriType → Option Str
  | .linkWebUrl | .linkHashUri | .linkNamedInfo | .linkMagnet =>
    some "<a href=\"%s\" rel=\"nofollow\">%s</a>".toList
  | .linkMultihash | .linkPrefix | .linkSsb => some "<span>%s</span>".toList
  | .linkNone | .linkRaw => none

/-- `direct_link_html`. -/
def directLinkHtml (memory : Stack) (type : HashUriType) (uriUnsafe : Option Str) :
    Result (Option Str) := do
  let escaped ← htmlEncode memory uriUnsafe
  match escaped with
  | none => .ok none
  | some escaped =>
    match directLinkFormat type with
    | some format => .ok (some (printf escaped format))
    | none => .error (.fault .assertion)

/-! ## Tags and attribute boundaries -/

/-- The tags of a part, with the quotes around the values of attributes. -/
def shape (part : Result (Option Str)) : Result (Option Str) :=
  part.map fun html => html.map (tags .text)

/-- No format has a hole in a tag. -/
theorem holesOutside_linkFormat (t : HashUriType) :
    HolesOutside .text (linkFormat t) = true := by
  cases t <;> decide +kernel

theorem holesOutside_directLinkFormat (type : HashUriType) :
    ∀ format ∈ directLinkFormat type, HolesOutside .text format = true := by
  cases type <;> decide +kernel

theorem quiet_encoded (str : Str) : Quiet (encoded str) := by
  intro c member
  have plain := not_mem_encoded member
  simp only [markupChars, List.mem_cons, not_or] at plain
  exact ⟨plain.1, plain.2.2.1, plain.2.2.2.1⟩

section Shape

variable (memory : Stack) {uri : Str} (terminated : nul ∉ uri)
include terminated

theorem linkHtml_eq (t : HashUriType) :
    linkHtml memory t (some uri) = .ok (some (printf (encoded uri) (linkFormat t))) := by
  rw [linkHtml, (htmlEncode_eq memory terminated).2]
  rfl

theorem shape_linkHtml (t : HashUriType) :
    shape (linkHtml memory t (some uri)) = shape (linkHtml memory t (some [])) := by
  rw [linkHtml_eq memory terminated, linkHtml_eq memory List.not_mem_nil]
  have same := (tags_printf (quiet_encoded uri) (holesOutside_linkFormat t)).1
  exact congrArg (fun text => Except.ok (some text)) same

theorem shape_directLinkHtml (type : HashUriType) :
    shape (directLinkHtml memory type (some uri)) =
      shape (directLinkHtml memory type (some [])) := by
  rw [directLinkHtml, directLinkHtml, (htmlEncode_eq memory terminated).2,
    (htmlEncode_eq memory List.not_mem_nil).2, Result.ok_bind, Result.ok_bind]
  have outside := holesOutside_directLinkFormat type
  cases found : directLinkFormat type with
  | none => rfl
  | some format =>
      rw [found] at outside
      have same := (tags_printf (quiet_encoded uri) (outside format rfl)).1
      exact congrArg (fun text => Except.ok (some text)) same

/-- A link in an item whose label does not end in a tag or in a value. -/
theorem shape_itemHtml (type : HashUriType) {label : Str}
    (ends : Position.text.after label = .text) (deprecated : Bool) :
    shape (itemHtml memory type label (some uri) deprecated) =
      shape (itemHtml memory type label (some []) deprecated) := by
  have start : Position.text.after ("<li class=\"break ".toList ++
      (if deprecated then "deprecated".toList else []) ++ "\">".toList) = .text := by
    cases deprecated <;> decide +kernel
  have opening := Position.after_append .text ("<li class=\"break ".toList ++
    (if deprecated then "deprecated".toList else []) ++ "\">".toList) label
  rw [start, ends] at opening
  obtain ⟨sameTags, samePosition⟩ :=
    tags_printf (quiet_encoded uri) (holesOutside_linkFormat type)
  rw [← opening] at sameTags samePosition
  rw [itemHtml, itemHtml, linkHtml_eq memory terminated, linkHtml_eq memory List.not_mem_nil,
    Result.ok_bind, Result.ok_bind]
  exact congrArg (fun text => Except.ok (some text)) (tags_replace sameTags samePosition _)

end Shape

/-- **`html_encode` is exact and safe.** The second loop fills what the first has counted;
the result has no character of markup, and an ampersand in it begins an entity; replacing
the entities gives the string back; and the parts of pages have the same tags and attribute
boundaries for every URI. -/
theorem html_encode_exact (memory : Stack) {str : Str} (terminated : nul ∉ str) :
    (∃ enc, writeLoop str (memory.uninitializedChars (sizeLoop str 0 + 1)) 0 =
      .ok (enc, sizeLoop str 0)) ∧
    (∃ out, htmlEncode memory (some str) = .ok (some out) ∧ out.length = sizeLoop str 0 ∧
      (∀ c ∈ out, c ∉ ['<', '>', '"', '\'', '/']) ∧
      (∀ before after, out = before ++ '&' :: after →
        ∃ entity ∈ entities, entity.2 <+: '&' :: after) ∧
      htmlDecode out = str) ∧
    (∀ type, shape (linkHtml memory type (some str)) =
      shape (linkHtml memory type (some []))) ∧
    (∀ type, shape (directLinkHtml memory type (some str)) =
      shape (directLinkHtml memory type (some []))) ∧
    ∀ type label deprecated, Position.text.after label = .text →
      shape (itemHtml memory type label (some str) deprecated) =
        shape (itemHtml memory type label (some []) deprecated) := by
  obtain ⟨⟨last, written⟩, result⟩ := htmlEncode_eq memory terminated
  refine ⟨⟨_, written⟩, ⟨encoded str, result, ?_, ?_, ?_, htmlDecode_encoded str⟩, ?_, ?_, ?_⟩
  · rw [sizeLoop_eq, Nat.zero_add]
  · exact fun c member => not_mem_encoded member
  · exact fun before after split => entity_of_ampersand split
  · exact fun type => shape_linkHtml memory terminated type
  · exact fun type => shape_directLinkHtml memory terminated type
  · exact fun type label deprecated ends => shape_itemHtml memory terminated type ends deprecated

/-- A URI that would end the value of an attribute. -/
def breakout : Str := "\"><script>alert('&amp;')</script>".toList

theorem html_encode_exact_breakout : ∃ out, htmlEncode (fun _ => 0xff) (some breakout) =
    .ok (some out) ∧ out.length = sizeLoop breakout 0 ∧ htmlDecode out = breakout := by
  obtain ⟨out, result, length, -, -, decoded⟩ :=
    (@html_encode_exact (fun _ => 0xff) breakout (by decide)).2.1
  exact ⟨out, result, length, decoded⟩

end HashArchive.Html
