import HashArchive.Pages.Dates
import HashArchive.Pages.Parts
import HashArchive.Pages.Templates

/-!
# Writing pages

What the pages have in common: their templates are loaded with `template_load` and written with
`TemplateWriteHTTPChunk`, and their callbacks write values one after the other (`writeValues`). What
`HTTPConnectionWriteChunkv` does with a chunk is a parameter, and most results are for one that
`Appends` it: `TemplateWrite` goes on after `UV_EPIPE` and calls `abort` after any other error.

The values have the tags of values without a text: a link that of a link to nothing, a date that of
any other one. `htmlEncode_quiet` says why, whatever the text is.
-/

set_option autoImplicit false

namespace HashArchive.Pages

open Hash Html Json Markup Templates

/-! ## Errors -/

/-- What the pages call of their libraries. -/
structure Texts where
  statusstr : ℤ → Str
  kvsStrerror : ℤ → Option Str
  uvStrerror : ℤ → Str

/-- `HX_ERRORS`. -/
def hxErrors : List (ℤ × Str) :=
  [(-12400, "unknown error".toList),
    (-12401, "blocked".toList),
    (-12402, "not found".toList),
    (-12403, "connection refused".toList),
    (-12404, "too many redirects".toList),
    (-12405, "truncated response".toList),
    (-12406, "connection timed out".toList),
    (-12501, "certificate expired".toList),
    (-12502, "unable to verify leaf signature".toList),
    (-12503, "unable to get issuer cert".toList),
    (-12504, "unable to get certificate revocation list".toList),
    (-12505, "unable to decrypt certificate signature".toList),
    (-12506, "unable to decrypt CRL signature".toList),
    (-12507, "unable to decode issuer public key".toList),
    (-12508, "certificate signature failure".toList),
    (-12509, "CRL signature failure".toList),
    (-12510, "certificate not yet valid".toList),
    (-12511, "CRL not yet valid".toList),
    (-12512, "CRL expired".toList),
    (-12513, "error in certificate not before field".toList),
    (-12514, "error in certificate not after field".toList),
    (-12515, "error in CRL last update field".toList),
    (-12516, "error in CRL next update field".toList),
    (-12517, "out of memory".toList),
    (-12518, "depth zero self-signed certificate".toList),
    (-12519, "self-signed certificate in chain".toList),
    (-12520, "unable to get issuer certificate locally".toList),
    (-12521, "certificate chain too long".toList),
    (-12522, "certificate revoked".toList),
    (-12523, "invalid certificate authority".toList),
    (-12524, "path length exceeded".toList),
    (-12525, "invalid purpose".toList),
    (-12526, "certificate untrusted".toList),
    (-12527, "certificate rejected".toList)]

/-- `hash_strerror`, for the texts of its `switch`. -/
def hashErrors : List (ℤ × Str) :=
  [(-22, "Invalid argument".toList), (-12, "No memory".toList), (-15701, "Hash panic".toList),
    (-15702, "Hash parse error".toList),
    (-15703, "Hash algorithm or option not supported".toList)]

/-- `hx_strerror`. -/
def hxStrerror (texts : Texts) (rc : ℤ) : Str :=
  if rc ≥ 0 then "No error".toList
  else
    match hxErrors.lookup rc with
    | some str => str
    | none =>
      match hashErrors.lookup rc with
      | some x => x
      | none =>
        match texts.kvsStrerror rc with
        | some x => x
        | none => texts.uvStrerror rc

/-- The texts of the libraries open no tag. -/
structure Texts.Plain (texts : Texts) : Prop where
  statusstr : ∀ status, '<' ∉ texts.statusstr status
  kvsStrerror : ∀ rc, ∀ x ∈ texts.kvsStrerror rc, '<' ∉ x
  uvStrerror : ∀ rc, '<' ∉ texts.uvStrerror rc

/-- Texts of the libraries. -/
def Texts.sample : Texts where
  statusstr _ := "Not Found".toList
  kvsStrerror _ := none
  uvStrerror _ := "unknown error".toList

theorem Texts.plain_sample : Texts.sample.Plain where
  statusstr _ := show '<' ∉ "Not Found".toList by decide
  kvsStrerror _ _ member := nomatch member
  uvStrerror _ := show '<' ∉ "unknown error".toList by decide

theorem notMem_hxStrerror {texts : Texts} (plain : texts.Plain) (rc : ℤ) :
    '<' ∉ hxStrerror texts rc := by
  have known {errors : List (ℤ × Str)} {str : Str} (found : errors.lookup rc = some str)
      (opensNone : errors.all (fun error => decide ('<' ∉ error.2)) = true) : '<' ∉ str := by
    obtain ⟨before, after, split, -⟩ := List.lookup_eq_some_iff.mp found
    have member : (rc, str) ∈ errors := split ▸ List.mem_append_right _ List.mem_cons_self
    exact of_decide_eq_true (List.all_eq_true.mp opensNone _ member)
  unfold hxStrerror
  split
  · decide +kernel
  · split
    · rename_i found
      exact known found (by decide +kernel)
    · split
      · rename_i found
        exact known found (by decide +kernel)
      · split
        · rename_i found
          exact plain.kvsStrerror rc _ found
        · exact plain.uvStrerror rc

/-! ## Templates and callbacks -/

/-- `template_load`, from the text of the file. -/
def templateLoad (memory : ℕ → Bool) (str : Str) : Result Template := do
  match ← templateCreate memory str with
  | .ok template => .ok template
  | .error _ => .error (.fault .assertion)

theorem exists_templateLoad {memory : ℕ → Bool} (enough : ∀ size, memory size = true) (str : Str) :
    ∃ template, templateLoad memory str = .ok template := by
  rcases templateCreate_cases memory str with ⟨steps, more, -, done⟩ | ⟨-, size, noMemory⟩
  · exact ⟨_, by rw [templateLoad, done]; rfl⟩
  · rw [enough] at noMemory
    cases noMemory

theorem created_of_loaded {memory : ℕ → Bool} {str : Str} {template : Template}
    (loaded : templateLoad memory str = .ok template) :
    templateCreate memory str = .ok (.ok template) := by
  obtain ⟨created, done, loaded⟩ := Result.bind_eq_ok.mp loaded
  cases created with
  | ok t =>
      cases loaded
      exact done
  | error rc => cases loaded

/-- `TemplateWriteHTTPChunk`, with the function that writes a chunk. The pages do not check what
it returns. -/
def templateWriteHTTPChunk (wr : TemplateWriteFn Page) (t : Template) (var : TemplateVarFn Page)
    (conn : Page) : Result Page := do
  let (_, conn) ← templateWrite (some t) (some var) wr conn
  .ok conn

/-- Chunks are written one after the other. -/
def writePlain : TemplateWriteFn Page := fun buf page => (0, page.1 ++ buf, page.2)

theorem appends_writePlain : Appends writePlain := fun _ _ _ => ⟨0, Int.le_refl 0, rfl⟩

/-- The page that was written, unless the program has left its defined behaviour. -/
def endPage (conn : Page) : Result Str :=
  match conn.2 with
  | none => .ok conn.1
  | some fault => .error (.fault fault)

/-- A callback writes values, of which some are left out, until it fails. -/
def writeValues (wr : TemplateWriteFn Page) : List (Result (Option Str)) → Page → ℤ × Page
  | [], conn => (0, conn)
  | .ok (some x) :: values, conn =>
    let (rc, conn) := wr x conn
    if rc < 0 then (rc, conn) else writeValues wr values conn
  | .ok none :: values, conn => writeValues wr values conn
  | .error (.code _) :: values, conn => writeValues wr values conn
  | .error (.fault fault) :: _, conn => (0, conn.1, conn.2.or (some fault))

/-- What `writeValues` writes. -/
def valueOf : List (Result (Option Str)) → Value
  | [] => ([], none)
  | .ok (some x) :: values => (x ++ (valueOf values).1, (valueOf values).2)
  | .ok none :: values | .error (.code _) :: values => valueOf values
  | .error (.fault fault) :: _ => ([], some fault)

theorem writeValues_of_appends {wr : TemplateWriteFn Page} (appends : Appends wr)
    (values : List (Result (Option Str))) (output : Str) (fault : Option Fault) :
    writeValues wr values (output, fault) =
      (0, output ++ (valueOf values).1, fault.or (valueOf values).2) := by
  induction values generalizing output with
  | nil => simp [writeValues, valueOf]
  | cons value values ih =>
      match value with
      | .ok (some x) =>
          obtain ⟨rc, succeeded, wrote⟩ := appends x output fault
          simp only [writeValues, wrote, if_neg (not_lt.mpr succeeded), ih, valueOf,
            List.append_assoc]
      | .ok none => exact ih output
      | .error (.code _) => exact ih output
      | .error (.fault fault') =>
          rw [valueOf, List.append_nil]
          rfl

theorem valueOf_noFault_iff {values : List (Result (Option Str))} :
    (valueOf values).2 = none ↔ ∀ value ∈ values, ∀ fault, value ≠ .error (.fault fault) := by
  induction values with
  | nil => exact iff_of_true rfl (by simp)
  | cons value values ih =>
      rw [List.forall_mem_cons, ← ih]
      match value with
      | .ok (some x) => exact (and_iff_right (by simp)).symm
      | .ok none => exact (and_iff_right (by simp)).symm
      | .error (.code _) => exact (and_iff_right (by simp)).symm
      | .error (.fault fault) =>
          refine iff_of_false (fun none => ?_) fun both => both.1 fault rfl
          cases none

/-- A value has the tags of a blank one, or is left out like it, unless it is a fault. -/
inductive LikeBlank : Result (Option Str) → Option Str → Prop
  | written {x blank : Str} (same : SameBlock x blank) : LikeBlank (.ok (some x)) (some blank)
  | leftOut : LikeBlank (.ok none) none
  | fault {fault : Fault} {blank : Option Str} : LikeBlank (.error (.fault fault)) blank

/-- **Values without a fault** have the tags of the blank ones. -/
theorem sameBlock_valueOf {α : Type} {items : List α} {value : α → Result (Option Str)}
    {blank : α → Option Str} (each : ∀ item ∈ items, LikeBlank (value item) (blank item))
    (noFault : (valueOf (items.map value)).2 = none) :
    SameBlock (valueOf (items.map value)).1 (items.filterMap blank).flatten := by
  induction items with
  | nil => exact SameBlock.refl rfl
  | cons item items ih =>
      obtain ⟨here, later⟩ := List.forall_mem_cons.mp each
      rw [List.map_cons] at noFault ⊢
      rw [List.filterMap_cons]
      generalize value item = first at here noFault ⊢
      generalize blank item = firstBlank at here ⊢
      cases here with
      | written same => exact same.append (ih later noFault)
      | leftOut => exact ih later noFault
      | fault => cases noFault

/-! ## Links -/

/-- **Nothing that is encoded ends a text or a value**, whatever it is. -/
theorem htmlEncode_quiet (memory : Stack) (str : Str) :
    ∃ escaped, htmlEncode memory (some str) = .ok (some escaped) ∧ Quiet escaped := by
  have length := memory.length_uninitializedChars (sizeLoop str 0 + 1)
  obtain ⟨cells, last, whole⟩ : ∃ cells last,
      memory.uninitializedChars (sizeLoop str 0 + 1) = cells ++ [last] :=
    ⟨_, _, (List.dropLast_concat_getLast (List.ne_nil_of_length_eq_add_one length)).symm⟩
  have total : sizeLoop str 0 = (encoded str).length := by rw [sizeLoop_eq, Nat.zero_add]
  rw [whole, List.length_append, List.length_singleton, Nat.add_right_cancel_iff, total] at length
  have written := @writeLoop_eq str [] cells [last] length
  rw [List.nil_append, List.nil_append, List.length_nil, Nat.zero_add, ← whole] at written
  have ended : writeCell (encoded str ++ [last]) (sizeLoop str 0) nul =
      .ok (encoded str ++ [nul]) := writeCell_append_cons _ _ _ _ total
  refine ⟨cString (encoded str ++ [nul]), ?_, fun c member => ?_⟩
  · simp only [htmlEncode, written, Result.ok_bind, ended]
  · have inside : c ∈ encoded str := by
      have before := List.mem_takeWhile_imp member
      rcases List.mem_append.mp ((List.takeWhile_sublist _).subset member) with inside | isNul
      · exact inside
      · rw [List.mem_singleton.mp isNul] at before
        exact absurd before (by decide)
    exact quiet_encoded str c inside

/-- A link to nothing. -/
def blankLink (t : HashUriType) : Str := printf [] (linkFormat t)

/-- A link has the tags of a link to nothing. -/
theorem exists_linkHtml (memory : Stack) (t : HashUriType) (uri : Str) :
    ∃ link, linkHtml memory t (some uri) = .ok (some link) ∧ SameBlock link (blankLink t) := by
  obtain ⟨escaped, encodes, quiet⟩ := htmlEncode_quiet memory uri
  have alike := Alike.printf quiet (holesOutside_linkFormat t)
  have closed : Position.text.after (printf [] (linkFormat t)) = .text := by
    cases t <;> decide +kernel
  refine ⟨printf escaped (linkFormat t), ?_, alike, alike.after.trans closed⟩
  rw [linkHtml, encodes]
  rfl

/-- An item with a link to nothing. -/
def blankItem (type : HashUriType) : Str :=
  "<li class=\"break ".toList ++ "\">".toList ++ blankLink type ++ "</li>".toList

theorem exists_itemHtml (memory : Stack) (type : HashUriType) (uri : Str) (deprecated : Bool) :
    ∃ item, itemHtml memory type [] (some uri) deprecated = .ok (some item) ∧
      SameBlock item (blankItem type) := by
  obtain ⟨link, linked, same⟩ := exists_linkHtml memory type uri
  have opening : SameBlock ("<li class=\"break ".toList ++
      (if deprecated then "deprecated".toList else []) ++ "\">".toList)
      ("<li class=\"break ".toList ++ "\">".toList) := by
    cases deprecated
    · exact SameBlock.refl (by decide +kernel)
    · exact ⟨⟨by decide +kernel, by decide +kernel⟩, by decide +kernel⟩
  refine ⟨_, ?_, (opening.append same).append (SameBlock.refl (by decide +kernel))⟩
  rw [itemHtml, linked, Result.ok_bind]
  dsimp only
  rw [List.append_nil]

theorem exists_directLinkHtml (memory : Stack) {type : HashUriType} {format : Str}
    (known : directLinkFormat type = some format) (uri : Str) :
    ∃ link, directLinkHtml memory type (some uri) = .ok (some link) ∧
      SameBlock link (printf [] format) := by
  obtain ⟨escaped, encodes, quiet⟩ := htmlEncode_quiet memory uri
  have alike := Alike.printf quiet (holesOutside_directLinkFormat type format known)
  have closed : ∀ format ∈ directLinkFormat type,
      Position.text.after (printf [] format) = .text := by
    cases type <;> decide +kernel
  refine ⟨printf escaped format, ?_, alike, alike.after.trans (closed format known)⟩
  rw [directLinkHtml, encodes, Result.ok_bind]
  dsimp only
  rw [known]

/-! ## Dates -/

/-- A date without a text. -/
def blankDate : Str := dateText [] [] 0 [] 0

theorem notMem_integerText (value : ℤ) : '<' ∉ integerText value := by
  have digits : '<' ∉ Nat.toDigits 10 value.natAbs := fun member =>
    absurd (Nat.isDigit_of_mem_toDigits (by decide) (by decide) member) (by decide)
  unfold integerText
  split_ifs
  · exact mt List.mem_cons.mp (not_or.mpr ⟨by decide, digits⟩)
  · exact digits

theorem sameBlock_dateText {label month ordinal : Str} (mday year : ℤ) (labelNone : '<' ∉ label)
    (monthNone : '<' ∉ month) (ordinalNone : '<' ∉ ordinal) :
    SameBlock (dateText label month mday ordinal year) blankDate := by
  have number (value : ℤ) : SameBlock (integerText value) (integerText 0) :=
    SameBlock.of_notMems (notMem_integerText value) (notMem_integerText 0)
  have tail : SameBlock "</div>".toList "</div>".toList := SameBlock.refl (by decide +kernel)
  have afterOrdinal : SameBlock "</sup>, ".toList "</sup>, ".toList :=
    SameBlock.refl (by decide +kernel)
  have beforeOrdinal : SameBlock "<sup>".toList "<sup>".toList := SameBlock.refl (by decide +kernel)
  have afterMonth : SameBlock [' '] [' '] := SameBlock.refl (by decide)
  have head : SameBlock "<div class=\"date\">".toList "<div class=\"date\">".toList :=
    SameBlock.refl (by decide +kernel)
  have ordinalOn := beforeOrdinal.append ((SameBlock.of_notMem ordinalNone).append
    (afterOrdinal.append ((number year).append tail)))
  have monthOn := (SameBlock.of_notMem monthNone).append
    (afterMonth.append ((number mday).append ordinalOn))
  exact head.append ((SameBlock.of_notMem labelNone).append monthOn)

theorem mem_of_tableEntry {table : List Str} {index : ℤ} {text : Str}
    (entry : tableEntry table index = .ok text) : text ∈ table := by
  unfold tableEntry at entry
  split at entry
  · split at entry
    · rename_i held
      cases entry
      exact List.mem_of_getElem? held
    · cases entry
  · cases entry

/-- A date has the tags of any other one, also when it comes from the stack. -/
theorem sameBlock_of_dateHtml {t : Tm} {label text : Str} {ts : ℤ} (labelNone : '<' ∉ label)
    (printed : dateHtml t label ts = .ok text) : SameBlock text blankDate := by
  have opensNone (table : List Str) (none : table.all (fun text => decide ('<' ∉ text)) = true)
      {text : Str} (member : text ∈ table) : '<' ∉ text :=
    of_decide_eq_true (List.all_eq_true.mp none text member)
  obtain ⟨month, isMonth, printed⟩ := Result.bind_eq_ok.mp printed
  obtain ⟨ordinal, isOrdinal, printed⟩ := Result.bind_eq_ok.mp printed
  split at printed
  · cases printed
    exact sameBlock_dateText _ _ labelNone
      (opensNone months (by decide +kernel) (mem_of_tableEntry isMonth))
      (opensNone suffix (by decide +kernel) (mem_of_tableEntry isOrdinal))
  · cases printed

/-! ## Writing blocks -/

/-- A step of writing a page adds a block. There is a fault after it if there was one before or the
step is not sound; otherwise the block has given tags. -/
def Writes (step : Page → Result Page) (sound : Prop) (blank : Str) : Prop :=
  ∀ conn, ∃ block fault, step conn = .ok (conn.1 ++ block, fault) ∧
    (fault = none ↔ conn.2 = none ∧ sound) ∧ (sound → SameBlock block blank)

namespace Writes

variable {step next : Page → Result Page} {sound soundNext : Prop} {blank rest : Str}

theorem nothing : Writes Except.ok True [] := fun conn =>
  ⟨[], conn.2, by rw [List.append_nil], (and_iff_left trivial).symm, fun _ => SameBlock.refl rfl⟩

theorem andThen (first : Writes step sound blank) (second : Writes next soundNext rest) :
    Writes (fun conn => step conn >>= next) (sound ∧ soundNext) (blank ++ rest) := by
  intro conn
  obtain ⟨block, fault, written, noFault, same⟩ := first conn
  obtain ⟨blockNext, faultNext, writtenNext, noFaultNext, sameNext⟩ :=
    second (conn.1 ++ block, fault)
  refine ⟨block ++ blockNext, faultNext, ?_, ?_, fun both => (same both.1).append (sameNext both.2)⟩
  · show step conn >>= next = _
    rw [written, Result.ok_bind, writtenNext, List.append_assoc]
  · rw [noFaultNext, ← and_assoc, ← noFault]

/-- **A loop** adds a block in each round. -/
theorem foldlM {α : Type} {round : Page → α → Result Page} {sound : α → Prop} {blank : α → Str}
    {items : List α}
    (each : ∀ item ∈ items, Writes (fun conn => round conn item) (sound item) (blank item)) :
    Writes (fun conn => items.foldlM round conn) (∀ item ∈ items, sound item)
      (items.flatMap blank) := by
  induction items with
  | nil =>
      intro conn
      obtain ⟨block, fault, written, noFault, same⟩ := nothing conn
      exact ⟨block, fault, written, by simpa using noFault, fun _ => same trivial⟩
  | cons item items ih =>
      obtain ⟨here, later⟩ := List.forall_mem_cons.mp each
      intro conn
      rw [List.forall_mem_cons]
      exact here.andThen (ih later) conn

theorem congr (written : Writes step sound blank) (same : sound ↔ soundNext)
    (sameBlank : blank = rest) : Writes step soundNext rest := by
  intro conn
  obtain ⟨block, fault, done, noFault, alike⟩ := written conn
  exact ⟨block, fault, done, noFault.trans (and_congr_right fun _ => same),
    fun sound => sameBlank ▸ alike (same.mpr sound)⟩

/-- **The end of a page**: it is written when the steps are sound, and otherwise there is a fault. -/
theorem endPage (written : Writes step sound blank) :
    (sound → ∃ body, step ([], none) >>= Pages.endPage = .ok body ∧ SameBlock body blank) ∧
      (¬ sound → ∃ fault, step ([], none) >>= Pages.endPage = .error (.fault fault)) := by
  obtain ⟨block, fault, done, noFault, same⟩ := written ([], none)
  rw [done, Result.ok_bind, Pages.endPage]
  cases fault with
  | none => exact ⟨fun sound => ⟨block, rfl, same sound⟩, fun not => absurd (noFault.mp rfl).2 not⟩
  | some fault =>
      refine ⟨fun sound => ?_, fun _ => ⟨fault, rfl⟩⟩
      cases noFault.mpr ⟨rfl, sound⟩

end Writes

/-- A value at a place, and one without a text there: they have the same tags and leave a reader in
the place. -/
def FitsAt (position : Position) (value blank : Str) : Prop :=
  Alike position value blank ∧ position.after value = position

theorem fitsAt_block {value blank : Str} (same : SameBlock value blank) :
    FitsAt .text value blank := ⟨same.toAlike, same.closed⟩

theorem fitsAt_quoted {value : Str} (quiet : Quiet value) : FitsAt .doubleQuoted value [] :=
  have outside : Position.doubleQuoted ≠ .tag := by decide
  ⟨⟨quiet.tags_eq outside, quiet.after_eq outside⟩, quiet.after_eq outside⟩

theorem fitsAt_text {value : Str} (quiet : Quiet value) : FitsAt .text value [] :=
  have outside : Position.text ≠ .tag := by decide
  ⟨⟨quiet.tags_eq outside, quiet.after_eq outside⟩, quiet.after_eq outside⟩

/-- **A template adds its text**, with the tags that it has with values without a text. -/
theorem writes_template {wr : TemplateWriteFn Page} (appends : Appends wr) {memory : ℕ → Bool}
    {text : Str} {found : List (Position × Str)} {template : Template} {var : TemplateVarFn Page}
    {value : Str → Value} {blank : Str → Str}
    (holes : Holes .text text found .text) (loaded : templateLoad memory text = .ok template)
    (succeeds : Succeeds var wr (faulty value) (found.map Prod.snd))
    (fits : ∀ hole ∈ found, (value hole.2).2 = none →
      FitsAt hole.1 (value hole.2).1 (blank hole.2)) :
    Writes (templateWriteHTTPChunk wr template var) (∀ hole ∈ found, (value hole.2).2 = none)
      (fillVars blank text) := by
  intro conn
  obtain ⟨fault, filled, noFault⟩ :=
    write_template appends (created_of_loaded loaded) holes succeeds conn
  refine ⟨fillVars (fun name => (value name).1) text, fault, ?_, noFault, fun noFaults => ?_⟩
  · rw [templateWriteHTTPChunk, filled]
    rfl
  · have alike : AlikeAt (fun name => (value name).1) blank found := fun hole member =>
      (fits hole member (noFaults hole member)).1
    have steady : Steady (fun name => (value name).1) found := fun hole member =>
      (fits hole member (noFaults hole member)).2
    exact ⟨alike_fillVars holes steady alike, after_fillVars holes steady⟩

/-- The values of `TemplateStaticVar`. -/
def argsValue (args : List (Str × Option Str)) (name : Str) : Value :=
  (((args.lookup name).join).getD [], none)

theorem succeeds_args {wr : TemplateWriteFn Page} (appends : Appends wr)
    {args : List (Str × Option Str)} {names : List Str}
    (known : ∀ name ∈ names, name ∈ args.map Prod.fst) :
    Succeeds (templateStaticVar args) wr (faulty (argsValue args)) names := by
  intro name member output fault
  obtain ⟨rc, succeeded, wrote⟩ :=
    succeeds_templateStaticVar appends known name member output fault
  refine ⟨rc, succeeded, wrote.trans ?_⟩
  rw [faulty, argsValue, Option.or_none]
  rfl

/-- **A template with a table of values**, of which each fits the hole in which it is. -/
theorem writes_args {wr : TemplateWriteFn Page} (appends : Appends wr) {memory : ℕ → Bool}
    {text : Str} {found : List (Position × Str)} {template : Template}
    {args : List (Str × Option Str)} {blank : Str → Str}
    (holes : Holes .text text found .text) (loaded : templateLoad memory text = .ok template)
    (fits : ∀ hole ∈ found, ∃ value, args.lookup hole.2 = some (some value) ∧
      FitsAt hole.1 value (blank hole.2)) :
    Writes (templateWriteHTTPChunk wr template (templateStaticVar args)) True
      (fillVars blank text) := by
  have known : ∀ name ∈ found.map Prod.snd, name ∈ args.map Prod.fst := by
    intro name member
    obtain ⟨hole, inHoles, rfl⟩ := List.mem_map.mp member
    obtain ⟨value, held, -⟩ := fits hole inHoles
    obtain ⟨before, after, split, -⟩ := List.lookup_eq_some_iff.mp held
    rw [split, List.map_append]
    exact List.mem_append_right _ List.mem_cons_self
  have written := @writes_template _ appends _ _ _ _ _ (argsValue args) blank holes loaded
    (succeeds_args appends known) fun hole member _ => by
      obtain ⟨value, held, fit⟩ := fits hole member
      rw [argsValue, held]
      exact fit
  exact written.congr (iff_of_true (fun _ _ => rfl) trivial) rfl

end HashArchive.Pages
