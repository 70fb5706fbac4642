import HashArchive.Util.Hasher
import HashArchive.Util.Url

/-!
# Paths of static files

`path_subpath_secure` puts a path that a client has sent after the name of a directory.
What it looks at are characters: the path begins with a slash, has no two dots in a row,
and the whole text fits. What it is for is said of components: followed one after the
other from the directory, they never lead out of it (`StaysInside`).

`snprintf` gives an `int`, which is compared with a `size_t`. A text that is too long for an
`int` gives a negative number, which is then larger than every limit.
-/

set_option autoImplicit false

namespace HashArchive.Path

/-! ## The functions -/

/-- `-EPERM`. -/
def eperm : Rc := ⟨-1, of_decide_eq_true rfl⟩

theorem einval_neg : (-22 : ℤ) < 0 := of_decide_eq_true rfl

/-- `-EINVAL`. -/
def einval : Rc := ⟨-22, einval_neg⟩

/-- `-ENAMETOOLONG`. -/
def enametoolong : Rc := ⟨-36, of_decide_eq_true rfl⟩

/-- `-EOVERFLOW`. -/
def eoverflow : Rc := ⟨-75, of_decide_eq_true rfl⟩

/-- What `snprintf` returns for a text: its length, when it is an `int`. -/
def snprintfRc (text : Str) : ℤ := if text.length < 2 ^ 31 then text.length else -1

/-- An `int` as a `size_t`. -/
def sizeT (rc : ℤ) : ℕ := (rc % 2 ^ 64).toNat

/-- `path_subpath_secure`: the return code, and what `out` holds. -/
def pathSubpathSecure (dir subpath : Option Str) (out : Str) (max : ℕ) :
    Result (Call Unit × Str) := do
  assertThat (max > 0)
  match dir, subpath with
  | none, _ => pure (.error einval, out)
  | some _, none => pure (.error einval, out)
  | some dir, some subpath =>
    if subpath.head? ≠ some '/' then pure (.error eperm, out)
    else if ['.', '.'] <:+: subpath then pure (.error eperm, out)
    else if dir.length ≥ max then pure (.error eperm, out)
    else
      let text := dir ++ '/' :: subpath
      let (written, _) := snprintf text max
      let rc := snprintfRc text
      if sizeT rc ≥ max then pure (.error enametoolong, written)
      else if rc < 0 then pure (.error eoverflow, written)
      else pure (.ok (), written)

/-! ## Components -/

/-- **A component is followed** from a directory below the first one, given by the names
that lead to it, the last name first. Above the first directory is nothing. -/
def follow (below : List Str) (component : Str) : Option (List Str) :=
  if component = [] ∨ component = ['.'] then some below
  else if component = ['.', '.'] then
    match below with
    | [] => none
    | _ :: above => some above
  else some (component :: below)

/-- Where components lead. -/
def resolve (components : List Str) : Option (List Str) := components.foldlM follow []

/-- **A path stays inside**: none of the prefixes of its components leads out of the
directory in which it starts. -/
def StaysInside (path : Str) : Prop :=
  ∀ components, components <+: path.splitOn '/' → (resolve components).isSome = true

theorem isSome_follow {below : List Str} {component : Str} (notUp : component ≠ ['.', '.']) :
    (follow below component).isSome = true := by
  unfold follow
  split_ifs <;> rfl

theorem isSome_foldlM_follow {components : List Str} (below : List Str)
    (notUp : ['.', '.'] ∉ components) : (components.foldlM follow below).isSome = true := by
  induction components generalizing below with
  | nil => rfl
  | cons component components ih =>
      rw [List.mem_cons, not_or] at notUp
      obtain ⟨next, followed⟩ := Option.isSome_iff_exists.mp
        (@isSome_follow below component (Ne.symm notUp.1))
      rw [List.foldlM_cons, followed]
      exact ih next notUp.2

/-- What stands between separators is part of the text. -/
theorem infix_of_mem_splitOn {component path : Str} {separator : Char}
    (member : component ∈ path.splitOn separator) : component <:+: path := by
  have joined := @List.intercalate_splitOn _ path _ _ separator
  rw [← joined]
  generalize path.splitOn separator = components at member
  induction components with
  | nil => cases member
  | cons first rest ih =>
      cases rest with
      | nil =>
          rw [List.mem_singleton] at member
          simp [member]
      | cons second rest =>
          rw [List.intercalate_cons_cons]
          rcases List.mem_cons.mp member with rfl | later
          · exact ⟨[], _, by simp; rfl⟩
          · exact (ih later).trans (List.suffix_append _ _).isInfix

/-- A path without two dots in a row has no component that leads up. -/
theorem staysInside_of_noDots {path : Str} (noDots : ¬ ['.', '.'] <:+: path) :
    StaysInside path := by
  intro components first
  refine isSome_foldlM_follow [] fun member => noDots ?_
  exact infix_of_mem_splitOn (first.subset member)

/-! ## What is promised of a path -/

/-- What is not negative is the length of the text. -/
theorem snprintfRc_cases (text : Str) :
    (sizeT (snprintfRc text) = text.length ∧ ¬ snprintfRc text < 0) ∨ snprintfRc text < 0 := by
  unfold snprintfRc sizeT
  by_cases short : text.length < 2 ^ 31
  · rw [if_pos short]
    omega
  · rw [if_neg short]
    omega

/-- What a path that is given back is. -/
theorem staysInside_of_pathSubpathSecure {dir subpath out path : Str} {max : ℕ}
    (done : pathSubpathSecure (some dir) (some subpath) out max = .ok (.ok (), path)) :
    StaysInside subpath ∧ path = dir ++ '/' :: subpath ∧ path.length < max := by
  obtain ⟨_, _, checked⟩ := Result.bind_eq_ok.mp done
  simp only at checked
  split_ifs at checked with slash dots long beyond negative <;> cases checked
  have fits : (dir ++ '/' :: subpath).length < max := by
    rcases snprintfRc_cases (dir ++ '/' :: subpath) with ⟨same, -⟩ | below
    · omega
    · exact absurd below negative
  have whole : (snprintf (dir ++ '/' :: subpath) max).1 = dir ++ '/' :: subpath :=
    strlcpy_of_length_lt fits
  rw [whole]
  exact ⟨staysInside_of_noDots dots, rfl, fits⟩

/-- The call ends, and only the assertion could keep it from it. -/
theorem exists_pathSubpathSecure (dir subpath : Option Str) (out : Str) {max : ℕ}
    (positive : 0 < max) : ∃ rc path, pathSubpathSecure dir subpath out max = .ok (rc, path) := by
  have started : assertThat (max > 0) = .ok () := assertThat_eq_ok.mpr positive
  simp only [pathSubpathSecure, started, Result.ok_bind]
  cases dir with
  | none => exact ⟨_, _, rfl⟩
  | some dir =>
      cases subpath with
      | none => exact ⟨_, _, rfl⟩
      | some subpath =>
          simp only
          split_ifs <;> exact ⟨_, _, rfl⟩

/-- **The path of a file is inside the directory.** A path that is given back is the
directory, a slash and the whole of the path that was asked for, which stays inside; a path
that would not stay inside or would not fit is an error. -/
theorem pathSubpathSecure_staysInside (dir subpath out : Str) (max : ℕ) (positive : 0 < max) :
    ∃ rc path, pathSubpathSecure (some dir) (some subpath) out max = .ok (rc, path) ∧
      (rc = .ok () →
        path = dir ++ '/' :: subpath ∧ path.length < max ∧ StaysInside subpath) ∧
      (¬ StaysInside subpath ∨ ¬ (dir ++ '/' :: subpath).length < max →
        ∃ code, rc = .error code) := by
  obtain ⟨rc, path, done⟩ := exists_pathSubpathSecure (some dir) (some subpath) out positive
  refine ⟨rc, path, done, ?_, ?_⟩
  · rintro rfl
    obtain ⟨inside, whole, fits⟩ := staysInside_of_pathSubpathSecure done
    exact ⟨whole, fits, inside⟩
  · intro refused
    cases rc with
    | error code => exact ⟨code, rfl⟩
    | ok _ =>
        obtain ⟨inside, whole, fits⟩ := staysInside_of_pathSubpathSecure done
        rw [whole] at fits
        rcases refused with outside | tooLong
        · exact absurd inside outside
        · exact absurd fits tooLong

/-- A style sheet, and a path that would lead up. -/
theorem pathSubpathSecure_staysInside_style :
    (∃ rc path, pathSubpathSecure (some "./static".toList) (some "/style.css".toList) [] 4096 =
        .ok (rc, path) ∧
      (rc = .ok () → path = "./static".toList ++ '/' :: "/style.css".toList ∧ path.length < 4096 ∧
        StaysInside "/style.css".toList)) ∧
    ¬ StaysInside "/../hash-archive.db".toList ∧
    ∃ code path, pathSubpathSecure (some "./static".toList) (some "/../hash-archive.db".toList) []
      4096 = .ok (.error code, path) := by
  have outside : ¬ StaysInside "/../hash-archive.db".toList := by
    intro inside
    have up := inside ["".toList, "..".toList] (by decide)
    cases up
  refine ⟨?_, outside, ?_⟩
  · obtain ⟨rc, path, done, promised, -⟩ := pathSubpathSecure_staysInside "./static".toList
      "/style.css".toList [] 4096 (by decide)
    exact ⟨rc, path, done, promised⟩
  · obtain ⟨rc, path, done, -, refused⟩ := pathSubpathSecure_staysInside "./static".toList
      "/../hash-archive.db".toList [] 4096 (by decide)
    obtain ⟨code, rfl⟩ := refused (.inl outside)
    exact ⟨code, path, done⟩

/-! ## Files that are served -/

/-- `CONFIG_STATIC_DIR`. -/
def configStaticDir : Str := "./static".toList

/-- The path that `GET_static` sends for a request, when it sends one. -/
def getStaticPath (uri : Str) (uninitialized : Str) : Result (Option Str) :=
  match Url.urlParse uri with
  | .error (.fault fault) => .error (.fault fault)
  | .error (.code _) => .ok none
  | .ok obj => do
    let (rc, path) ← pathSubpathSecure (some configStaticDir) (some obj.path) uninitialized 4096
    match rc with
    | .error _ => pure none
    | .ok () => pure (some path)

/-- **Only files below the static directory are sent.** -/
theorem staysInside_of_getStaticPath {uri uninitialized path : Str}
    (sent : getStaticPath uri uninitialized = .ok (some path)) :
    ∃ subpath, path = configStaticDir ++ '/' :: subpath ∧ StaysInside subpath := by
  unfold getStaticPath at sent
  cases parsed : Url.urlParse uri with
  | error failure =>
      rw [parsed] at sent
      cases failure <;> cases sent
  | ok obj =>
      rw [parsed] at sent
      obtain ⟨⟨rc, written⟩, called, answered⟩ := Result.bind_eq_ok.mp sent
      cases rc with
      | error code => cases answered
      | ok done =>
          cases answered
          obtain ⟨inside, whole, -⟩ := staysInside_of_pathSubpathSecure called
          exact ⟨obj.path, whole, inside⟩

end HashArchive.Path
