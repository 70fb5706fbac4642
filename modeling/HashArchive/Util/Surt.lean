import HashArchive.Foundations.Scanning
import HashArchive.Util.Url

/-!
# URLs that share a SURT

`url_normalize_surt` reverses the labels of the domain in an array of the size of the
domain's own, although the reversed text is three characters longer: each label is
followed by a comma, and the whole is in parentheses. Nothing checks whether it fits.

For a domain of up to 254 characters only punctuation is lost, and the SURT still tells
one domain from another. Of a domain of 255 characters the last character of the first
label is lost as well. `surt_separates_iff` says that this is the only way in which two
URLs that are normalized differently can get one SURT.
-/

set_option autoImplicit false

namespace HashArchive.Url

/-! ## Absolute URLs -/

/-- A character of a label. -/
def isLabelChar (c : Char) : Bool := c.isAlphanum || c == '-'

/-- **An absolute URL**: a scheme, a domain of up to eight labels, a port if any, and a
path, query and fragment. -/
structure AbsoluteUrl where
  scheme : Str
  labels : List Str
  port : Str
  tail : Str
  scheme_ne : scheme ≠ []
  scheme_colon : ':' ∉ scheme
  scheme_slash : scheme.head? ≠ some '/'
  labels_ne : labels ≠ []
  labels_few : labels.length ≤ 8
  label_ne : ∀ label ∈ labels, label ≠ []
  label_chars : ∀ label ∈ labels, ∀ c ∈ label, isLabelChar c = true
  port_digits : ∀ c ∈ port, c.isDigit = true
  port_few : port.length ≤ 15
  tail_slash : ∀ c ∈ tail.head?, c = '/'

/-- Labels joined by dots. -/
def joined (labels : List Str) : Str := List.intercalate ['.'] labels

theorem joined_singleton (label : Str) : joined [label] = label := by simp [joined]

theorem joined_cons_cons (label next : Str) (labels : List Str) :
    joined (label :: next :: labels) = label ++ '.' :: joined (next :: labels) := by
  simp [joined]

theorem joined_ne {labels : List Str} (nonempty : labels ≠ [])
    (label_ne : ∀ label ∈ labels, label ≠ []) : joined labels ≠ [] := by
  cases labels with
  | nil => exact absurd rfl nonempty
  | cons label labels =>
      have here := label_ne label List.mem_cons_self
      cases labels with
      | nil => simpa [joined_singleton] using here
      | cons next labels => simp [joined_cons_cons]

theorem mem_joined {symbol : Char} {labels : List Str} (member : symbol ∈ joined labels) :
    symbol = '.' ∨ ∃ label ∈ labels, symbol ∈ label := by
  induction labels with
  | nil => simp [joined] at member
  | cons label labels ih =>
      cases labels with
      | nil => exact .inr ⟨label, List.mem_cons_self, by simpa [joined_singleton] using member⟩
      | cons next labels =>
          rw [joined_cons_cons, List.mem_append, List.mem_cons] at member
          rcases member with here | rfl | later
          · exact .inr ⟨label, List.mem_cons_self, here⟩
          · exact .inl rfl
          · refine (ih later).imp_right fun ⟨found, inLabels, inFound⟩ => ?_
            exact ⟨found, List.mem_cons_of_mem _ inLabels, inFound⟩

/-- A port with the colon before it. -/
def withColon (port : Str) : Str := if port = [] then [] else ':' :: port

theorem head?_withColon {port : Str} {c : Char} (first : c ∈ (withColon port).head?) : c = ':' := by
  unfold withColon at first
  split at first
  · cases first
  · exact (Option.some.inj first).symm

theorem mem_withColon {port : Str} {c : Char} (member : c ∈ withColon port) :
    c = ':' ∨ c ∈ port := by
  unfold withColon at member
  split at member
  · cases member
  · exact List.mem_cons.mp member

namespace AbsoluteUrl

variable (url : AbsoluteUrl)

/-- The host part. -/
def host : Str := joined url.labels ++ withColon url.port

/-- The URL itself. -/
def text : Str := url.scheme ++ (':' :: '/' :: '/' :: (url.host ++ url.tail))

/-- The path and the query. -/
def resource : Str := url.tail.takeWhile (· != '#')

/-- The labels in lower case. -/
def lowered : List Str := url.labels.map strlower

end AbsoluteUrl

/-! ## Lower case -/

theorem strlower_append (first second : Str) :
    strlower (first ++ second) = strlower first ++ strlower second := List.map_append

@[simp] theorem length_strlower (text : Str) : (strlower text).length = text.length :=
  List.length_map _

theorem strlower_joined (labels : List Str) :
    strlower (joined labels) = joined (labels.map strlower) := by
  induction labels with
  | nil => rfl
  | cons label labels ih =>
      cases labels with
      | nil => simp [joined_singleton]
      | cons next labels =>
          rw [joined_cons_cons, strlower_append, List.map_cons, List.map_cons, joined_cons_cons,
            ← List.map_cons, ← ih]
          rfl

/-- A character of a label in lower case. -/
def isLoweredChar (c : Char) : Bool := c.isLower || c.isDigit || c == '-'

theorem isLoweredChar_iff {c : Char} : isLoweredChar c = true ↔
    c.isLower = true ∨ c.isDigit = true ∨ c = '-' := by
  simp only [isLoweredChar, Bool.or_eq_true, beq_iff_eq, or_assoc]

theorem isLabelChar_iff {c : Char} : isLabelChar c = true ↔
    c.isUpper = true ∨ isLoweredChar c = true := by
  simp only [isLabelChar, isLoweredChar, isAlphanum_eq, Bool.or_eq_true, or_assoc]

theorem toLower_of_isLoweredChar {c : Char} (lowered : isLoweredChar c = true) : c.toLower = c := by
  apply toLower_of_not_upper
  intro upper
  rcases isLoweredChar_iff.mp lowered with letter | digit | rfl
  · have := (isLower_iff.mp letter).1
    omega
  · have := (isDigit_iff.mp digit).2
    omega
  · exact absurd upper.1 (by decide)

theorem isLoweredChar_toLower {c : Char} (label : isLabelChar c = true) :
    isLoweredChar c.toLower = true := by
  rcases isLabelChar_iff.mp label with upper | already
  · have letter := isUpper_iff.mp upper
    have sum := toNat_toLower letter
    exact isLoweredChar_iff.mpr (.inl (isLower_iff.mpr (by omega)))
  · rwa [toLower_of_isLoweredChar already]

theorem strlower_of_digits {port : Str} (digits : ∀ c ∈ port, c.isDigit = true) :
    strlower port = port := by
  refine (List.map_congr_left fun c member => ?_).trans (List.map_id port)
  exact toLower_of_isLoweredChar (isLoweredChar_iff.mpr (.inr (.inl (digits c member))))

theorem not_mem_strlower {symbol : Char} (noLetter : ¬ ('a' ≤ symbol ∧ symbol ≤ 'z')) {text : Str}
    (absent : symbol ∉ text) : symbol ∉ strlower text := by
  intro member
  obtain ⟨c, inText, lower⟩ := List.mem_map.mp member
  exact absent (eq_of_toLower_eq lower noLetter ▸ inText)

namespace AbsoluteUrl

variable (url : AbsoluteUrl)

theorem lowered_ne : url.lowered ≠ [] := by
  simpa [lowered] using url.labels_ne

theorem lowered_label_ne : ∀ label ∈ url.lowered, label ≠ [] := by
  intro label member
  obtain ⟨original, inLabels, rfl⟩ := List.mem_map.mp member
  simpa [strlower] using url.label_ne original inLabels

theorem lowered_chars : ∀ label ∈ url.lowered, ∀ c ∈ label, isLoweredChar c = true := by
  intro label member c inLabel
  obtain ⟨original, inLabels, rfl⟩ := List.mem_map.mp member
  obtain ⟨letter, inOriginal, rfl⟩ := List.mem_map.mp inLabel
  exact isLoweredChar_toLower (url.label_chars original inLabels letter inOriginal)

theorem host_ne : url.host ≠ [] :=
  List.append_ne_nil_of_left_ne_nil (joined_ne url.labels_ne url.label_ne) _

theorem strlower_host : strlower url.host = joined url.lowered ++ withColon url.port := by
  have port : strlower (withColon url.port) = withColon url.port := by
    unfold withColon
    split
    · rfl
    · exact congrArg _ (strlower_of_digits url.port_digits)
  rw [host, strlower_append, strlower_joined, port, lowered]

end AbsoluteUrl

/-! ## Parsing -/

theorem urlParse_absolute {url : Str} (nonempty : url ≠ []) (noSlash : url.head? ≠ some '/') :
    urlParse url =
      let fields := sscanf [urlSchemeFmt, .literal ':', .literal '/', .literal '/', urlHostFmt,
        urlPathFmt, urlQueryFmt] url
      let out : UrlT := ⟨fields.getD 0 [], fields.getD 1 [], fields.getD 2 [], fields.getD 3 []⟩
      if out.scheme = [] then .error (.code .urlEparse)
      else if out.host = [] then .error (.code .urlEparse)
      else urlCheck out := by
  cases url with
  | nil => exact absurd rfl nonempty
  | cons first rest =>
      unfold urlParse
      split
      · rename_i same
        exact absurd (congrArg List.head? same) noSlash
      · rename_i same
        exact absurd (congrArg List.head? same) noSlash
      · rfl

/-- The path and the query are what is before a fragment. -/
theorem sscanf_resource {tail : Str} (slash : ∀ c ∈ tail.head?, c = '/')
    (fits : tail.length ≤ 1023) :
    (sscanf [urlPathFmt, urlQueryFmt] tail).getD 0 [] ++
      (sscanf [urlPathFmt, urlQueryFmt] tail).getD 1 [] = tail.takeWhile (· != '#') := by
  refine sscanf_nested (fun c inside => ?_) (fun c first => ?_) fits
  · exact (Bool.and_eq_true_iff.mp inside).2
  · rw [slash c first]
    decide

/-- The check leaves the path and the query. -/
theorem urlCheck_eq_ok {out parsed : UrlT} (done : urlCheck out = .ok parsed) :
    parsed = { out with scheme := strlower out.scheme, host := strlower out.host } ∧
      (out.path ≠ [] → out.path.head? = some '/') := by
  unfold urlCheck at done
  split_ifs at done with path query
  cases done
  exact ⟨rfl, fun nonempty => by_contra fun other => path ⟨nonempty, other⟩⟩

namespace AbsoluteUrl

variable {url : AbsoluteUrl}

/-- A host has no character that ends a host or a path. -/
theorem mem_host {c : Char} (member : c ∈ url.host) :
    (c != '/') = true ∧ (c != '?' && c != '#') = true := by
  have isLabel : ∀ {c}, isLabelChar c = true →
      (c != '/') = true ∧ (c != '?' && c != '#') = true := by
    intro c label
    refine ⟨bne_iff_ne.mpr ?_, Bool.and_eq_true_iff.mpr ⟨bne_iff_ne.mpr ?_, bne_iff_ne.mpr ?_⟩⟩ <;>
      (rintro rfl; exact absurd label (by decide))
  rw [host, List.mem_append] at member
  rcases member with inDomain | inPort
  · rcases mem_joined inDomain with rfl | ⟨label, inLabels, inLabel⟩
    · decide
    · exact isLabel (url.label_chars label inLabels c inLabel)
  · rcases mem_withColon inPort with rfl | digit
    · decide
    · refine isLabel (isLabelChar_iff.mpr (.inr (isLoweredChar_iff.mpr (.inr (.inl ?_)))))
      exact url.port_digits c digit

/-- The format `url_parse` scans an absolute URL with. -/
abbrev absoluteFmt : List Directive :=
  [urlSchemeFmt, .literal ':', .literal '/', .literal '/', urlHostFmt, urlPathFmt, urlQueryFmt]

section Scan

variable {scheme host rest : Str} (noColon : ∀ c ∈ scheme, (c != ':') = true)

include noColon in
/-- A scheme that fits, and then the rest. -/
theorem sscanf_scheme (nonempty : scheme ≠ []) (short : scheme.length ≤ 31) :
    sscanf absoluteFmt (scheme ++ (':' :: '/' :: '/' :: rest)) =
      scheme :: sscanf [urlHostFmt, urlPathFmt, urlQueryFmt] rest := by
  rw [absoluteFmt, urlSchemeFmt, sscanf_of_stop noColon nonempty (by simp) (by simpa using short)]
  simp [sscanf]

include noColon in
/-- A scheme that is cut off is not followed by a colon. -/
theorem sscanf_scheme_of_long (long : 31 < scheme.length) :
    sscanf absoluteFmt (scheme ++ (':' :: '/' :: '/' :: rest)) = [scheme.take 31] := by
  obtain ⟨next, inScheme, more, scanned⟩ := sscanf_of_long noColon (by decide) long
  rw [absoluteFmt, urlSchemeFmt, scanned]
  have other : next ≠ ':' := bne_iff_ne.mp (noColon next inScheme)
  simp [sscanf, other]

/-- A host that ends at a slash, or at its limit, is followed by the path and the query. -/
theorem sscanf_host (noSlash : ∀ c ∈ host, (c != '/') = true) (nonempty : host ≠ [])
    (short : host.length ≤ 255) (stops : (∀ c ∈ rest.head?, c = '/') ∨ host.length = 255) :
    sscanf [urlHostFmt, urlPathFmt, urlQueryFmt] (host ++ rest) =
      host :: sscanf [urlPathFmt, urlQueryFmt] rest := by
  have taken : scansetMatch (some 255) (· != '/') (host ++ rest) = host := by
    rcases stops with slash | limit
    · refine scansetMatch_of_stop noSlash (fun c first => ?_) (by simpa using short)
      rw [slash c first]
      decide
    · rw [scansetMatch_of_long noSlash limit.ge, ← limit, List.take_length]
  rw [urlHostFmt, sscanf_scanset taken nonempty, List.drop_left]

/-- Of a host that is cut off the rest starts a path. -/
theorem sscanf_host_of_long
    (chars : ∀ c ∈ host, (c != '/') = true ∧ (c != '?' && c != '#') = true)
    (long : 255 < host.length) :
    ∃ next, next ≠ '/' ∧
      ((sscanf [urlHostFmt, urlPathFmt, urlQueryFmt] (host ++ rest)).getD 1 []).head? =
        some next := by
  obtain ⟨next, inHost, more, scanned⟩ :=
    sscanf_of_long (fun c member => (chars c member).1) (by decide) long
  obtain ⟨noSlash, inPath⟩ := chars next inHost
  refine ⟨next, bne_iff_ne.mp noSlash, ?_⟩
  rw [urlHostFmt, scanned, List.getD_cons_succ, urlPathFmt, getD_sscanf_scanset, scansetMatch,
    List.take_succ_cons]
  exact congrArg List.head? (List.takeWhile_cons_of_pos (p := fun c => c != '?' && c != '#') inPath)

end Scan

/-- **The parts of an absolute URL that is accepted**: nothing of its host is cut off. -/
theorem urlParse_eq_ok (fits : url.text.length ≤ 1023) {parsed : UrlT}
    (done : urlParse url.text = .ok parsed) :
    url.host.length ≤ 255 ∧ parsed.scheme = strlower url.scheme ∧
      parsed.host = strlower url.host ∧ parsed.path ++ parsed.query = url.resource := by
  have nonempty : url.text ≠ [] := by simp [text]
  have noSlash : url.text.head? ≠ some '/' := by
    rw [text, List.head?_append_of_ne_nil _ url.scheme_ne]
    exact url.scheme_slash
  rw [urlParse_absolute nonempty noSlash] at done
  dsimp only at done
  split_ifs at done with scheme host
  obtain ⟨rfl, slash⟩ := urlCheck_eq_ok done
  have noColon : ∀ c ∈ url.scheme, (c != ':') = true := by
    intro c member
    simpa using fun same : c = ':' => url.scheme_colon (same ▸ member)
  rcases Nat.lt_or_ge 31 url.scheme.length with long | short
  · rw [text, sscanf_scheme_of_long noColon long] at host
    exact absurd rfl host
  rw [text, sscanf_scheme noColon url.scheme_ne short] at slash ⊢
  rcases Nat.lt_or_ge 255 url.host.length with long | fitsHost
  · obtain ⟨next, noSlash, head⟩ := sscanf_host_of_long (fun _ => mem_host) long
    refine absurd (Option.some.inj (head.symm.trans (slash fun empty => ?_))) noSlash
    rw [show (sscanf _ _).getD 1 [] = [] from empty] at head
    cases head
  · have tailFits : url.tail.length ≤ 1023 := by
      simp only [text, List.length_append, List.length_cons] at fits
      omega
    rw [sscanf_host (fun _ member => (mem_host member).1) url.host_ne fitsHost
      (.inl url.tail_slash)]
    exact ⟨fitsHost, rfl, rfl, sscanf_resource url.tail_slash tailFits⟩

end AbsoluteUrl

/-! ## The domain -/

/-- The directives for the labels after the first. -/
def moreLabels (count : ℕ) : List Directive :=
  (List.replicate count [.literal '.', subdomainFmt]).flatten

/-- Scanning splits a domain at its dots. -/
theorem sscanf_joined {labels : List Str} {count : ℕ} (nonempty : labels ≠ [])
    (few : labels.length ≤ count + 1) (ne : ∀ label ∈ labels, label ≠ [])
    (chars : ∀ label ∈ labels, ∀ c ∈ label, isLoweredChar c = true) :
    sscanf (subdomainFmt :: moreLabels count) (joined labels) = labels := by
  induction labels generalizing count with
  | nil => exact absurd rfl nonempty
  | cons label labels ih =>
      obtain ⟨here, later⟩ := List.forall_mem_cons.mp ne
      obtain ⟨charsHere, charsLater⟩ := List.forall_mem_cons.mp chars
      cases labels with
      | nil =>
          have scanned : sscanf (subdomainFmt :: moreLabels count) (label ++ []) = label :: _ :=
            sscanf_of_stop charsHere here (by simp) (by simp)
          rw [List.append_nil] at scanned
          rw [joined_singleton, scanned]
          cases count with
          | zero => rfl
          | succ count => rfl
      | cons next labels =>
          have scanned : sscanf (subdomainFmt :: moreLabels count)
              (label ++ '.' :: joined (next :: labels)) = label :: _ :=
            sscanf_of_stop charsHere here (by simp) (by simp)
          rw [joined_cons_cons, scanned]
          cases count with
          | zero => simp at few
          | succ count =>
              apply congrArg _
              exact ih (List.cons_ne_nil _ _) (by simpa using few) later charsLater

/-- Labels, each with a comma after it. -/
def commaEnded (labels : List Str) : Str := labels.flatMap (· ++ [','])

theorem commaEnded_cons (label : Str) (labels : List Str) :
    commaEnded (label :: labels) = label ++ ',' :: commaEnded labels := by
  simp [commaEnded]

theorem length_commaEnded_reverse (labels : List Str) :
    (commaEnded labels.reverse).length = (commaEnded labels).length := by
  simp [commaEnded, List.length_flatMap]

/-- The labels, last one first, in parentheses. -/
def listed (labels : List Str) : Str := '(' :: (commaEnded labels.reverse ++ [')'])

theorem foldl_strlcat (text : Str) (labels : List Str) (max : ℕ) :
    labels.foldl (fun out label => strlcat (strlcat out label max) [','] max)
        (text.take (max - 1)) = (text ++ commaEnded labels).take (max - 1) := by
  induction labels generalizing text with
  | nil => simp [commaEnded]
  | cons label labels ih =>
      rw [List.foldl_cons, strlcat_take, strlcat_take, ih]
      simp [commaEnded]

/-- A reversed domain, as much of it as fits. -/
theorem domainReverse_joined {labels : List Str} (nonempty : labels ≠ [])
    (few : labels.length ≤ 8) (ne : ∀ label ∈ labels, label ≠ [])
    (chars : ∀ label ∈ labels, ∀ c ∈ label, isLoweredChar c = true) (max : ℕ) :
    domainReverse (joined labels) max = (listed labels).take (max - 1) := by
  have unfolded : domainReverse (joined labels) max =
      strlcat ((sscanf (subdomainFmt :: moreLabels 7) (joined labels)).reverse.foldl
        (fun out label => strlcat (strlcat out label max) [','] max) (strlcpy ['('] max))
        [')'] max := rfl
  rw [unfolded, sscanf_joined nonempty few ne chars, strlcpy, foldl_strlcat, strlcat_take]
  rfl

theorem length_joined_cons (label : Str) (labels : List Str) :
    (joined (label :: labels)).length + 1 =
      label.length + 1 + (commaEnded labels).length := by
  induction labels generalizing label with
  | nil => simp [joined_singleton, commaEnded]
  | cons next labels ih =>
      have rest := ih next
      rw [joined_cons_cons, commaEnded_cons]
      simp only [List.length_append, List.length_cons]
      omega

theorem listed_cons (first : Str) (others : List Str) :
    listed (first :: others) =
      ('(' :: commaEnded others.reverse) ++ first ++ [',', ')'] := by
  simp [listed, commaEnded]

/-- A reversed domain is three characters longer. -/
theorem length_listed {labels : List Str} (nonempty : labels ≠ []) :
    (listed labels).length = (joined labels).length + 3 := by
  cases labels with
  | nil => exact absurd rfl nonempty
  | cons first others =>
      have length := length_joined_cons first others
      have reversed := length_commaEnded_reverse others
      rw [listed_cons]
      simp only [List.length_append, List.length_cons, List.length_nil]
      omega

/-- The labels of a domain in lower case. -/
structure IsDomain (labels : List Str) : Prop where
  nonempty : labels ≠ []
  label_ne : ∀ label ∈ labels, label ≠ []
  chars : ∀ label ∈ labels, ∀ c ∈ label, isLoweredChar c = true

/-- The labels that are left of a domain when its reversal is cut off. -/
def kept (labels : List Str) : List Str :=
  if (joined labels).length < 255 then labels
  else
    match labels with
    | [] => []
    | first :: others => if first.length = 1 then others else first.dropLast :: others

section Kept

variable {labels : List Str} (domain : IsDomain labels) (fits : (joined labels).length ≤ 255)
include domain fits

/-- What is cut off is what is not kept. -/
theorem take_listed_kept : (listed labels).take 255 = (listed (kept labels)).take 255 := by
  unfold kept
  split_ifs with short
  · rfl
  cases labels with
  | nil => rfl
  | cons first others =>
      have first_ne := domain.label_ne first List.mem_cons_self
      have positive : 0 < first.length := List.length_pos_of_ne_nil first_ne
      have length := length_joined_cons first others
      have reversed := length_commaEnded_reverse others
      dsimp only
      split_ifs with one
      · have front : ('(' :: commaEnded others.reverse).length = 255 := by
          rw [List.length_cons]
          omega
        rw [listed_cons, List.append_assoc, listed, ← List.cons_append, ← front, List.take_left,
          List.take_left]
      · have front : (('(' :: commaEnded others.reverse) ++ first.dropLast).length = 255 := by
          rw [List.length_append, List.length_cons, List.length_dropLast]
          omega
        have split : first = first.dropLast ++ [first.getLast first_ne] :=
          (List.dropLast_append_getLast _).symm
        conv_lhs => rw [listed_cons, split, ← List.append_assoc, List.append_assoc, ← front,
          List.take_left]
        rw [listed_cons, ← front, List.take_left]

/-- What is kept fits. -/
theorem length_joined_kept : (joined (kept labels)).length ≤ 254 := by
  unfold kept
  split_ifs with short
  · omega
  cases labels with
  | nil => exact absurd rfl domain.nonempty
  | cons first others =>
      have length := length_joined_cons first others
      dsimp only
      split_ifs with one
      · cases others with
        | nil =>
            rw [joined_singleton] at short
            omega
        | cons next others =>
            rw [joined_cons_cons, List.length_append, List.length_cons] at fits
            omega
      · have positive : 0 < first.length :=
          List.length_pos_of_ne_nil (domain.label_ne first List.mem_cons_self)
        have shorter := length_joined_cons first.dropLast others
        rw [List.length_dropLast] at shorter
        omega

theorem IsDomain.kept : IsDomain (kept labels) := by
  unfold Url.kept
  split_ifs with short
  · exact domain
  cases labels with
  | nil => exact domain
  | cons first others =>
      obtain ⟨first_ne, others_ne⟩ := List.forall_mem_cons.mp domain.label_ne
      obtain ⟨first_chars, others_chars⟩ := List.forall_mem_cons.mp domain.chars
      dsimp only
      split_ifs with one
      · refine ⟨?_, others_ne, others_chars⟩
        rintro rfl
        rw [joined_singleton] at short
        omega
      · refine ⟨List.cons_ne_nil _ _, List.forall_mem_cons.mpr ⟨?_, others_ne⟩,
          List.forall_mem_cons.mpr ⟨?_, others_chars⟩⟩
        · intro empty
          have length := congrArg List.length empty
          rw [List.length_dropLast, List.length_nil] at length
          have positive := List.length_pos_of_ne_nil first_ne
          omega
        · exact fun c member => first_chars c (List.dropLast_subset first member)

end Kept

/-- What a reversal ends with. -/
def isClosing (c : Char) : Bool := c == ',' || c == ')'

/-- Without its closing characters, a reversal of at most 254 characters is what it was
before it was cut off. -/
theorem rdropWhile_take_listed {labels : List Str} (domain : IsDomain labels)
    (fits : (joined labels).length ≤ 254) :
    ((listed labels).take 255).rdropWhile isClosing ++ [',', ')'] = listed labels := by
  cases labels with
  | nil => exact absurd rfl domain.nonempty
  | cons first others =>
      have length := length_listed domain.nonempty
      rw [listed_cons] at length ⊢
      rw [List.length_append] at length
      rw [List.take_append, List.take_of_length_le (by simp at length ⊢; omega),
        rdropWhile_append]
      · intro c member
        have closing : c ∈ [',', ')'] := List.mem_of_mem_take member
        simpa [isClosing] using closing
      · intro c last
        have first_ne := domain.label_ne first List.mem_cons_self
        rw [List.getLast?_append_of_ne_nil _ first_ne] at last
        have lowered := domain.chars first List.mem_cons_self c (List.mem_of_getLast? last)
        apply Bool.eq_false_iff.mpr
        intro closing
        rcases Bool.or_eq_true_iff.mp closing with comma | parenthesis
        · rw [beq_iff_eq.mp comma] at lowered
          exact absurd lowered (by decide)
        · rw [beq_iff_eq.mp parenthesis] at lowered
          exact absurd lowered (by decide)

/-- Up to 254 characters a reversal that is cut off determines the labels. -/
theorem take_listed_inj {first second : List Str} (domainFirst : IsDomain first)
    (domainSecond : IsDomain second) (fitsFirst : (joined first).length ≤ 254)
    (fitsSecond : (joined second).length ≤ 254)
    (same : (listed first).take 255 = (listed second).take 255) : first = second := by
  have whole : listed first = listed second := by
    rw [← rdropWhile_take_listed domainFirst fitsFirst, same,
      rdropWhile_take_listed domainSecond fitsSecond]
  have noComma : ∀ {labels}, IsDomain labels → ∀ label ∈ labels.reverse, ',' ∉ label := by
    intro labels domain label member inLabel
    exact absurd (domain.chars label (List.mem_reverse.mp member) _ inLabel) (by decide)
  refine List.reverse_injective (flatMap_terminated_inj (noComma domainFirst)
    (noComma domainSecond) ?_)
  exact List.append_cancel_right (List.cons.inj whole).2

/-! ## The SURT -/

theorem snprintfOrTooLong_eq_ok {text : Str} {max : ℕ} {out : Str} :
    snprintfOrTooLong text max = .ok out ↔ text.length < max ∧ out = text := by
  unfold snprintfOrTooLong snprintf
  split_ifs with long
  · exact ⟨(nomatch ·), fun fits => absurd fits.1 (Nat.not_lt.mpr long)⟩
  · have short : text.length < max := Nat.not_le.mp long
    rw [List.take_of_length_le (by omega), Except.ok.injEq]
    exact ⟨fun same => ⟨short, same.symm⟩, fun same => same.2.symm⟩

namespace AbsoluteUrl

variable {url : AbsoluteUrl}

theorem isDomain_lowered (url : AbsoluteUrl) : IsDomain url.lowered :=
  ⟨url.lowered_ne, url.lowered_label_ne, url.lowered_chars⟩

/-- The parts of the host. -/
theorem hostParse_host (short : (joined url.lowered).length ≤ 255) :
    hostParse (joined url.lowered ++ withColon url.port) = .ok ⟨joined url.lowered, url.port⟩ := by
  have nonempty : joined url.lowered ≠ [] := joined_ne url.lowered_ne url.lowered_label_ne
  have inside : ∀ c ∈ joined url.lowered, (c.isAlphanum || c == '.' || c == '-') = true := by
    intro c member
    rcases mem_joined member with rfl | ⟨label, inLabels, inLabel⟩
    · decide
    · rcases isLoweredChar_iff.mp (url.lowered_chars label inLabels c inLabel) with
        letter | digit | rfl
      · simp [isAlphanum_eq, letter]
      · simp [isAlphanum_eq, digit]
      · decide
  have stops : ∀ c ∈ (withColon url.port).head?,
      (c.isAlphanum || c == '.' || c == '-') = false := by
    intro c first
    rw [head?_withColon first]
    decide
  have port : (sscanf [.literal ':', urlPortFmt] (withColon url.port)).getD 0 [] = url.port := by
    unfold withColon
    split_ifs with empty
    · rw [empty]
      rfl
    · have takesPort : scansetMatch (some 15) Char.isDigit (url.port ++ []) = url.port :=
        scansetMatch_of_stop url.port_digits (by simp) (by simpa using url.port_few)
      rw [List.append_nil] at takesPort
      calc (sscanf [.literal ':', urlPortFmt] (':' :: url.port)).getD 0 []
          = (sscanf [urlPortFmt] url.port).getD 0 [] := by simp [sscanf]
        _ = url.port := (getD_sscanf_scanset _ _ _).trans takesPort
  unfold hostParse
  rw [urlDomainFmt, sscanf_of_stop inside nonempty stops (by simpa using short)]
  dsimp only
  rw [if_neg (by simpa using nonempty)]
  simp only [List.getD_cons_zero, List.getD_cons_succ, port]

/-- The SURT of an absolute URL. -/
def surt (url : AbsoluteUrl) : Str :=
  strlower url.scheme ++ [':', '/', '/'] ++
    ((listed url.lowered).take 255 ++ withColon url.port ++ url.resource)

/-- The normal form of an absolute URL. -/
def normal (url : AbsoluteUrl) : Str :=
  strlower url.scheme ++ [':', '/', '/'] ++
    (joined url.lowered ++ withColon url.port ++ url.resource)

theorem length_normal_le (url : AbsoluteUrl) : url.normal.length ≤ url.text.length := by
  have host := congrArg List.length url.strlower_host
  have resource : url.resource.length ≤ url.tail.length := (List.takeWhile_sublist _).length_le
  rw [length_strlower] at host
  simp only [normal, text, List.length_append, List.length_cons, List.length_nil,
    length_strlower] at host ⊢
  omega

/-- **The results of an absolute URL that has a SURT.** -/
theorem urlNormalizeSurt_eq_ok (fits : url.text.length ≤ 1023) {out : Str}
    (done : urlNormalizeSurt url.text uriMax = .ok out) :
    out = url.surt ∧ urlNormalize url.text uriMax = .ok url.normal ∧
      (joined url.lowered).length ≤ 255 := by
  unfold urlNormalizeSurt at done
  obtain ⟨parsed, parse, afterParse⟩ := Result.bind_eq_ok.mp done
  obtain ⟨hostParsed, parseHost, afterHost⟩ := Result.bind_eq_ok.mp afterParse
  obtain ⟨hostTmp, format, final⟩ := Result.bind_eq_ok.mp afterHost
  obtain ⟨short, scheme, host, resource⟩ := urlParse_eq_ok fits parse
  have shortDomain : (joined url.lowered).length ≤ 255 := by
    have length := congrArg List.length url.strlower_host
    rw [length_strlower, List.length_append] at length
    omega
  rw [host, url.strlower_host, hostParse_host shortDomain, Except.ok.injEq] at parseHost
  subst parseHost
  have domain := url.isDomain_lowered
  have few : url.lowered.length ≤ 8 := by simpa [lowered] using url.labels_few
  rw [domainReverse_joined domain.nonempty few domain.label_ne domain.chars,
    show urlDomainMax - 1 = 255 from rfl] at format
  have formatted : hostTmp = (listed url.lowered).take 255 ++ withColon url.port := by
    unfold hostFormat at format
    unfold withColon
    split_ifs at format ⊢ with noPort
    · simpa using (snprintfOrTooLong_eq_ok.mp format).2
    · simpa using (snprintfOrTooLong_eq_ok.mp format).2
  refine ⟨?_, ?_, shortDomain⟩
  · obtain ⟨-, rfl⟩ := snprintfOrTooLong_eq_ok.mp final
    rw [surt, ← resource, ← scheme, formatted]
    simp
  · rw [urlNormalize, parse, Result.ok_bind, urlFormat]
    have text : parsed.scheme ++ [':', '/', '/'] ++ parsed.host ++ parsed.path ++ parsed.query =
        url.normal := by
      rw [normal, ← resource, scheme, host, strlower_host]
      simp
    rw [text]
    exact snprintfOrTooLong_eq_ok.mpr ⟨by have := url.length_normal_le; unfold uriMax; omega, rfl⟩

end AbsoluteUrl

/-! ## What a SURT tells apart -/

theorem withColon_inj {first second : Str} (same : withColon first = withColon second) :
    first = second := by
  unfold withColon at same
  split_ifs at same with empty other
  · rw [empty, other]
  · exact (List.cons.inj same).2

/-- The parts a URL is put together from. -/
structure Parts where
  scheme : Str
  domain : Str
  port : Str
  resource : Str
  scheme_colon : ':' ∉ scheme
  domain_plain : ∀ c ∈ domain, c ≠ ':' ∧ c ≠ '/'
  port_slash : '/' ∉ port
  resource_slash : ∀ c ∈ resource.head?, c = '/'

namespace Parts

variable (parts : Parts)

/-- The URL of the parts. -/
def text : Str :=
  parts.scheme ++ [':', '/', '/'] ++ (parts.domain ++ withColon parts.port ++ parts.resource)

theorem takeWhile_domain :
    (parts.domain ++ withColon parts.port).takeWhile (· != ':') = parts.domain := by
  refine takeWhile_of_stop (fun c member => bne_iff_ne.mpr (parts.domain_plain c member).1) ?_
  intro c first
  rw [head?_withColon first]
  decide

theorem takeWhile_host :
    (parts.domain ++ withColon parts.port ++ parts.resource).takeWhile (· != '/') =
      parts.domain ++ withColon parts.port := by
  refine takeWhile_of_stop (fun c member => bne_iff_ne.mpr ?_) fun c first => ?_
  · rcases List.mem_append.mp member with inDomain | inPort
    · exact (parts.domain_plain c inDomain).2
    · rcases mem_withColon inPort with rfl | digit
      · decide
      · exact fun same => parts.port_slash (same ▸ digit)
  · rw [parts.resource_slash c first]
    decide

/-- A URL determines its parts. -/
theorem text_inj {parts other : Parts} (same : parts.text = other.text) :
    parts.scheme = other.scheme ∧ parts.domain = other.domain ∧ parts.port = other.port ∧
      parts.resource = other.resource := by
  unfold text at same
  rw [List.append_assoc, List.append_assoc other.scheme] at same
  obtain ⟨schemes, rest⟩ := Regex.split_unique same parts.scheme_colon other.scheme_colon
  have afterScheme := (List.cons.inj (List.cons.inj rest).2).2
  have hosts : parts.domain ++ withColon parts.port = other.domain ++ withColon other.port := by
    rw [← parts.takeWhile_host, ← other.takeWhile_host]
    exact congrArg _ afterScheme
  have domains : parts.domain = other.domain := by
    rw [← parts.takeWhile_domain, hosts, other.takeWhile_domain]
  have resources : parts.resource = other.resource :=
    List.append_cancel_left (hosts ▸ afterScheme)
  rw [domains] at hosts
  exact ⟨schemes, domains, withColon_inj (List.append_cancel_left hosts), resources⟩

end Parts

theorem joined_inj {first second : List Str} (domainFirst : IsDomain first)
    (domainSecond : IsDomain second) (same : joined first = joined second) : first = second := by
  have noDot : ∀ {labels}, IsDomain labels → ∀ label ∈ labels, '.' ∉ label := by
    intro labels domain label member inLabel
    exact absurd (domain.chars label member _ inLabel) (by decide)
  rw [← List.splitOn_intercalate '.' (noDot domainFirst) domainFirst.nonempty,
    ← List.splitOn_intercalate '.' (noDot domainSecond) domainSecond.nonempty]
  exact congrArg _ same

theorem isLoweredChar_plain {c : Char} (lowered : isLoweredChar c = true) :
    c ≠ ':' ∧ c ≠ '/' := by
  constructor <;> (rintro rfl; exact absurd lowered (by decide))

theorem plain_of_mem_joined {c : Char} {labels : List Str} (domain : IsDomain labels)
    (member : c ∈ joined labels) : c ≠ ':' ∧ c ≠ '/' := by
  rcases mem_joined member with rfl | ⟨label, inLabels, inLabel⟩
  · decide
  · exact isLoweredChar_plain (domain.chars label inLabels c inLabel)

theorem plain_of_mem_listed {c : Char} {labels : List Str} (domain : IsDomain labels)
    (member : c ∈ listed labels) : c ≠ ':' ∧ c ≠ '/' := by
  rcases List.mem_cons.mp member with rfl | member
  · decide
  rcases List.mem_append.mp member with inLabels | last
  · obtain ⟨label, inReverse, inEnded⟩ := List.mem_flatMap.mp inLabels
    rcases List.mem_append.mp inEnded with inLabel | comma
    · exact isLoweredChar_plain (domain.chars label (List.mem_reverse.mp inReverse) c inLabel)
    · rw [List.mem_singleton.mp comma]
      decide
  · rw [List.mem_singleton.mp last]
    decide

namespace AbsoluteUrl

variable {url u v : AbsoluteUrl}

/-- The parts of an absolute URL, with another text in the place of its domain. -/
def parts (url : AbsoluteUrl) (domain : Str) (plain : ∀ c ∈ domain, c ≠ ':' ∧ c ≠ '/') : Parts where
  scheme := strlower url.scheme
  domain := domain
  port := url.port
  resource := url.resource
  scheme_colon := not_mem_strlower (by decide) url.scheme_colon
  domain_plain := plain
  port_slash := fun member => absurd (url.port_digits _ member) (by decide)
  resource_slash := by
    intro c first
    apply url.tail_slash c
    unfold resource at first
    cases tail : url.tail with
    | nil =>
        rw [tail] at first
        exact first
    | cons next rest =>
        rw [tail, List.takeWhile_cons] at first
        split_ifs at first
        · exact first
        · cases first

theorem normal_eq_iff : u.normal = v.normal ↔ strlower u.scheme = strlower v.scheme ∧
    u.port = v.port ∧ u.resource = v.resource ∧ u.lowered = v.lowered := by
  constructor
  · intro same
    have plain := fun url : AbsoluteUrl => fun c (member : c ∈ joined url.lowered) =>
      plain_of_mem_joined url.isDomain_lowered member
    obtain ⟨schemes, domains, ports, resources⟩ :=
      @Parts.text_inj (u.parts _ (plain u)) (v.parts _ (plain v)) same
    exact ⟨schemes, ports, resources,
      joined_inj u.isDomain_lowered v.isDomain_lowered domains⟩
  · rintro ⟨schemes, ports, resources, labels⟩
    unfold normal
    rw [schemes, ports, resources, labels]

theorem surt_eq_iff (fitsFirst : (joined u.lowered).length ≤ 255)
    (fitsSecond : (joined v.lowered).length ≤ 255) :
    u.surt = v.surt ↔ strlower u.scheme = strlower v.scheme ∧
      u.port = v.port ∧ u.resource = v.resource ∧ kept u.lowered = kept v.lowered := by
  have domainFirst := u.isDomain_lowered
  have domainSecond := v.isDomain_lowered
  constructor
  · intro same
    have plain := fun url : AbsoluteUrl => fun c (member : c ∈ (listed url.lowered).take 255) =>
      plain_of_mem_listed url.isDomain_lowered (List.mem_of_mem_take member)
    obtain ⟨schemes, domains, ports, resources⟩ :=
      @Parts.text_inj (u.parts _ (plain u)) (v.parts _ (plain v)) same
    refine ⟨schemes, ports, resources, ?_⟩
    refine take_listed_inj (domainFirst.kept fitsFirst) (domainSecond.kept fitsSecond)
      (length_joined_kept domainFirst fitsFirst) (length_joined_kept domainSecond fitsSecond) ?_
    rw [← take_listed_kept domainFirst fitsFirst, ← take_listed_kept domainSecond fitsSecond]
    exact domains
  · rintro ⟨schemes, ports, resources, labels⟩
    unfold surt
    rw [schemes, ports, resources, take_listed_kept domainFirst fitsFirst, labels,
      take_listed_kept domainSecond fitsSecond]

/-- Two URLs that differ in nothing but domains of which the same is kept. -/
def Confused (u v : AbsoluteUrl) : Prop :=
  strlower u.scheme = strlower v.scheme ∧ u.port = v.port ∧ u.resource = v.resource ∧
    u.lowered ≠ v.lowered ∧ kept u.lowered = kept v.lowered

/-- **What a SURT tells apart.** Two absolute URLs that have SURTs have the same one exactly
when they are normalized alike, unless they are confused. -/
theorem surt_separates_iff (fitsFirst : u.text.length ≤ 1023) (fitsSecond : v.text.length ≤ 1023)
    {first second : Str} (doneFirst : urlNormalizeSurt u.text uriMax = .ok first)
    (doneSecond : urlNormalizeSurt v.text uriMax = .ok second) :
    (urlNormalizeSurt u.text uriMax = urlNormalizeSurt v.text uriMax ↔
      urlNormalize u.text uriMax = urlNormalize v.text uriMax) ↔ ¬ Confused u v := by
  obtain ⟨rfl, normalFirst, shortFirst⟩ := urlNormalizeSurt_eq_ok fitsFirst doneFirst
  obtain ⟨rfl, normalSecond, shortSecond⟩ := urlNormalizeSurt_eq_ok fitsSecond doneSecond
  rw [doneFirst, doneSecond, normalFirst, normalSecond, Except.ok.injEq, Except.ok.injEq,
    surt_eq_iff shortFirst shortSecond, normal_eq_iff, Confused]
  have keeps : u.lowered = v.lowered → kept u.lowered = kept v.lowered := congrArg kept
  tauto

/-- A URL of only a domain. -/
def site (labels : List Str) (domain : IsDomain labels) (few : labels.length ≤ 8) :
    AbsoluteUrl where
  scheme := "http".toList
  labels := labels
  port := []
  tail := []
  scheme_ne := by decide
  scheme_colon := by decide
  scheme_slash := by decide
  labels_ne := domain.nonempty
  labels_few := few
  label_ne := domain.label_ne
  label_chars := fun label member c inLabel =>
    isLabelChar_iff.mpr (.inr (domain.chars label member c inLabel))
  port_digits := by simp
  port_few := by simp
  tail_slash := by simp

theorem isDomain_letter {c : Char} (lowered : isLoweredChar c = true) : IsDomain [[c]] :=
  ⟨List.cons_ne_nil _ _, by simp, by simpa using lowered⟩

theorem surt_separates_sample :
    (urlNormalizeSurt "http://a".toList uriMax = urlNormalizeSurt "http://b".toList uriMax ↔
      urlNormalize "http://a".toList uriMax = urlNormalize "http://b".toList uriMax) ↔
    ¬ Confused (site [['a']] (isDomain_letter (by decide)) (by decide))
      (site [['b']] (isDomain_letter (by decide)) (by decide)) :=
  @surt_separates_iff (site [['a']] (isDomain_letter (by decide)) (by decide))
    (site [['b']] (isDomain_letter (by decide)) (by decide)) (by decide) (by decide)
    "http://(a,)".toList "http://(b,)".toList (by decide +kernel) (by decide +kernel)

/-- A domain of 255 characters, of which one is free. -/
def longDomain (last : Char) : List Str :=
  (List.replicate 50 'a' ++ [last]) :: List.replicate 4 (List.replicate 50 'a')

theorem isDomain_longDomain {last : Char} (lowered : isLoweredChar last = true) :
    IsDomain (longDomain last) := by
  have letters : ∀ c ∈ List.replicate 50 'a', isLoweredChar c = true :=
    fun c member => List.eq_of_mem_replicate member ▸ by decide
  refine ⟨List.cons_ne_nil _ _, ?_, ?_⟩
  · intro label member
    rcases List.mem_cons.mp member with rfl | rest
    · exact List.append_ne_nil_of_right_ne_nil _ (List.cons_ne_nil _ _)
    · rw [List.eq_of_mem_replicate rest]
      exact List.cons_ne_nil _ _
  · intro label member c inLabel
    rcases List.mem_cons.mp member with rfl | rest
    · rcases List.mem_append.mp inLabel with here | final
      · exact letters c here
      · exact List.mem_singleton.mp final ▸ lowered
    · exact letters c (List.eq_of_mem_replicate rest ▸ inLabel)

/-- **Two domains of 255 characters with one SURT.** -/
theorem long_domains_confused :
    ∃ u v : AbsoluteUrl, u.text = "http://".toList ++ joined (longDomain 'b') ∧
      v.text = "http://".toList ++ joined (longDomain 'c') ∧
      u.text.length ≤ 1023 ∧ v.text.length ≤ 1023 ∧
      (∃ surt, urlNormalizeSurt u.text uriMax = .ok surt ∧
        urlNormalizeSurt v.text uriMax = .ok surt) ∧
      urlNormalize u.text uriMax ≠ urlNormalize v.text uriMax := by
  refine ⟨site (longDomain 'b') (isDomain_longDomain (by decide)) (by decide),
    site (longDomain 'c') (isDomain_longDomain (by decide)) (by decide),
    by decide +kernel, by decide +kernel, by decide +kernel, by decide +kernel,
    ⟨"http://".toList ++ (listed (longDomain 'b')).take 255, ?_, ?_⟩, ?_⟩
  · decide +kernel
  · decide +kernel
  · decide +kernel

end AbsoluteUrl

end HashArchive.Url
