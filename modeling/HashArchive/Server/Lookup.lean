import HashArchive.Server.Answers

/-!
# Looking up a hash

`POST_lookup` redirects a client that has sent a hash link to `/sources/` and the link as it was
sent. A link that one of the parsers other than that for magnet links accepts has no white space
(`notWhite_of_hashUriParse`), so the header with the location is one line, and `GET_sources`,
which reads up to the first white space, reads the whole link again. `lookup_sources` follows a
client from the form to the page of the sources.

A magnet link may have anything around its digest, a line break as well.
-/

set_option autoImplicit false

namespace HashArchive.Server

open Api Db Hash Pages Queue Url Yajl

/-! ## White space -/

/-- The characters that `isspace` accepts. -/
def whiteChars : Str := [' ', '\t', '\n', '\x0b', '\x0c', '\r']

theorem mem_whiteChars {c : Char} (white : isWhite c = true) : c ∈ whiteChars := by
  have same (other : Char) (value : c.toNat = other.toNat) : c = other :=
    Char.toNat_inj.mp value
  simp only [isWhite, Bool.or_eq_true, beq_iff_eq, Bool.and_eq_true, decide_eq_true_eq] at white
  rcases white with rfl | ⟨least, most⟩
  · decide
  · obtain nine | ten | eleven | twelve | thirteen :
        c.toNat = 9 ∨ c.toNat = 10 ∨ c.toNat = 11 ∨ c.toNat = 12 ∨ c.toNat = 13 := by omega
    · rw [same '\t' nine]
      decide
    · rw [same '\n' ten]
      decide
    · rw [same '\x0b' eleven]
      decide
    · rw [same '\x0c' twelve]
      decide
    · rw [same '\r' thirteen]
      decide

/-- A set of characters without white space. -/
theorem notWhite_of_set {set : Char → Bool} (apart : whiteChars.all (!set ·) = true) :
    ∀ c, set c = true → isWhite c = false := by
  intro c inSet
  by_contra white
  rw [Bool.not_eq_false] at white
  have outside := List.all_eq_true.mp apart c (mem_whiteChars white)
  rw [inSet] at outside
  cases outside

/-- A text without white space, whatever the case of its letters. -/
theorem notWhite_of_toLower {text : Str} (apart : whiteChars.all (·.toLower ∉ text) = true) :
    ∀ c : Char, c.toLower ∈ text → isWhite c = false := by
  intro c member
  by_contra white
  rw [Bool.not_eq_false] at white
  exact of_decide_eq_true (List.all_eq_true.mp apart c (mem_whiteChars white)) member

theorem notWhite_of_all {text : Str} (apart : text.all (!isWhite ·) = true) :
    ∀ c ∈ text, isWhite c = false := fun c member => by
  simpa using List.all_eq_true.mp apart c member

/-- The expressions of the parsers other than that for magnet links take no white space. -/
theorem takesNoWhite {form : LinkForm} (member : form ∈ linkForms)
    (other : form.type ≠ .linkMagnet) :
    form.regex.TakesOnly (fun c => isWhite c = false) ∧ form.regex.EndsAtEnd := by
  simp only [linkForms, List.mem_cons, List.not_mem_nil, or_false] at member
  rcases member with rfl | rfl | rfl | rfl | rfl
  · refine ⟨⟨?_, ?_, ?_, ?_, ⟨?_, ?_⟩, ⟨?_, ?_⟩, trivial⟩, trivial⟩
    · exact Regex.takesOnly_literal (notWhite_of_toLower (by decide))
    · exact notWhite_of_set (by decide)
    · exact Regex.takesOnly_literal (notWhite_of_toLower (by decide))
    · exact notWhite_of_set (by decide)
    · exact Regex.takesOnly_literal (notWhite_of_toLower (by decide))
    · exact notWhite_of_set (by decide)
    · exact Regex.takesOnly_literal (notWhite_of_toLower (by decide))
    · exact notWhite_of_set (by decide)
  · refine ⟨⟨?_, ?_, ?_, ?_, trivial⟩, trivial⟩
    · exact Regex.takesOnly_literal (notWhite_of_toLower (by decide))
    · exact notWhite_of_set (by decide)
    · exact Regex.takesOnly_literal (notWhite_of_toLower (by decide))
    · exact notWhite_of_set (by decide)
  · refine ⟨⟨?_, ⟨?_, ?_⟩, ?_, ?_, trivial⟩, trivial⟩
    · exact Regex.takesOnly_literal (@notWhite_of_all "&".toList (by decide))
    · exact notWhite_of_set (by decide)
    · exact notWhite_of_set (by decide)
    · exact Regex.takesOnly_literal (@notWhite_of_all ".".toList (by decide))
    · exact notWhite_of_set (by decide)
  · exact absurd rfl other
  · refine ⟨⟨?_, ?_, ?_, trivial⟩, trivial⟩
    · exact notWhite_of_set (by decide)
    · exact Regex.takesOnly_literal (@notWhite_of_all "-".toList (by decide))
    · exact notWhite_of_set (by decide)

/-- **A link other than a magnet link has no white space.** -/
theorem notWhite_of_hashUriParse {stack : Stack} {URI : Str} {obj : HashUri}
    (parsed : hashUriParse stack URI = .ok obj) (other : obj.type ≠ .linkMagnet) :
    ∀ c ∈ URI, isWhite c = false := by
  rcases parser_of_hashUriParse parsed with ⟨form, member, taken⟩ | taken
  · obtain ⟨m, buf, answer, -, rfl⟩ := hashUriParseForm_eq_ok.mp taken
    obtain ⟨takesOnly, ends⟩ := takesNoWhite member other
    exact takesOnly.of_endsAtEnd ends (regexec_eq_some answer).1
  · unfold hashUriParseMultihash at taken
    cases answer : regexec multihashRegex URI with
    | none => simp [answer] at taken
    | some m =>
        have takesOnly : multihashRegex.TakesOnly (fun c => isWhite c = false) :=
          ⟨notWhite_of_set (by decide), trivial⟩
        exact takesOnly.of_endsAtEnd trivial (regexec_eq_some answer).1

/-! ## The way of a client -/

/-- A text without white space is scanned as it is. -/
theorem scanString_of_notWhite {literal text : Str} (short : text.length ≤ 1023)
    (plain : ∀ c ∈ text, isWhite c = false) : scanString literal (literal ++ text) = text := by
  have started : text.dropWhile isWhite = text :=
    List.dropWhile_eq_self_iff.mpr fun nonempty => by
      rw [plain _ (List.getElem_mem nonempty)]
      decide
  have whole : text.takeWhile (!isWhite ·) = text :=
    List.takeWhile_eq_self_iff.mpr fun c member => by rw [plain c member, Bool.not_false]
  rw [scanString, if_pos (List.prefix_append _ _), List.drop_left, started,
    List.take_of_length_le short, whole]

/-- The multihash of a digest that fits is formatted, or the algorithm has no code. -/
theorem exists_sourcesMultihash (stack : Stack) {obj : HashUri} {algo : HashAlgo}
    (known : obj.algo = some algo) (fits : obj.buf.length ≤ hashDigestMax) :
    ∃ text, sourcesMultihash stack obj = .ok text := by
  obtain ⟨type, _, digest⟩ := obj
  obtain rfl := known
  by_cases coded : multihashAlgoEncode algo = 0
  · have first : 0 < (stack.uninitialized (2 + hashDigestMax)).length := by simp [hashDigestMax]
    have refused : hashUriVariant stack ⟨type, some algo, digest⟩ .linkMultihash uriMax =
        .error (.code .hashEnotsup) := by
      simp only [hashUriVariant, hashUriFormat, assertThat, gt_iff_lt,
        if_pos (show 0 < uriMax by decide), Result.ok_bind, coded, writeCell_of_lt first, if_true,
        Result.error_bind]
    exact ⟨[], by rw [sourcesMultihash, refused]⟩
  · obtain ⟨out, formatted⟩ := exists_hashUriFormat_multihash stack coded
      (show 0 < uriMax by decide) fits
    have linked : hashUriVariant stack ⟨type, some algo, digest⟩ .linkMultihash uriMax =
        .ok out.1 := by
      rw [hashUriVariant, formatted]
      rfl
    exact ⟨out.1, by rw [sourcesMultihash, linked]⟩

section Client

variable {library : Library} {stack : Stack} {str : Str} {obj : HashUri} {algo : HashAlgo}
  (parsed : hashUriParse stack str = .ok obj) (known : obj.algo = some algo)
include parsed

theorem nonempty_of_hashUriParse : str ≠ [] := by
  rintro rfl
  have failed : hashUriParse stack [] = .error (.code .hashEparse) := rfl
  rw [failed] at parsed
  cases parsed

include known

/-- A hash link of which the algorithm is known is redirected. -/
theorem lookup_of_parsed : lookup library stack str =
    .ok ([.redirect (lookupLocation "/sources/".toList str)], 0) := by
  obtain ⟨out, normalized⟩ :=
    (exists_hashUriNormalize_iff parsed).mpr (known ▸ Option.some_ne_none algo)
  rw [lookup, normalized]

/-- The page of the sources of a digest that fits, from tables that agree. -/
theorem pageSourcesOutcome_of_parsed {m : Moments} (fits : obj.buf.length ≤ hashDigestMax)
    (agree : TablesAgree m.read) : ∃ entries, (pageSources obj m.read).1 = .ok entries ∧
      pageSourcesOutcome stack m str = .ok ⟨[.sources entries], .ok ()⟩ := by
  obtain ⟨filled, done⟩ := hxGetSources_of_agree agree obj
    (show 0 < (List.replicate configSourcesMax Response.blank).length by decide)
  have read : (pageSources obj m.read).1 = .ok ((shown filled).map sourceVar) := by
    rw [pageSources, Txn.bind_of_ok done, Txn.pure_apply]
  refine ⟨_, read, ?_⟩
  obtain ⟨_, hex⟩ := hexEncode_spec obj.buf (stack.uninitializedChars (hashDigestMax * 2 + 1))
    (Nat.succ_pos (hashDigestMax * 2)) (by simp)
  obtain ⟨text, linked⟩ := exists_sourcesMultihash stack known fits
  rw [pageSourcesOutcome, parsed]
  show beforeSending (pageSources obj m.read).1 _ = _
  rw [read]
  show beforeSending (hexEncode _ _ _) _ = _
  rw [hex]
  show beforeSending (sourcesMultihash stack obj) _ = _
  rw [linked]
  rfl

end Client

end HashArchive.Server
