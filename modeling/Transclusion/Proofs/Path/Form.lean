import Transclusion.Proofs.Path.Joining

/-
  The texts of canonical paths.

  Key definitions include:
    * `Transclusion.IsCanonicalText`
    * `Transclusion.pushComponent`
    * `Transclusion.normalizedPath`
    * `Transclusion.CanonicalPath.HasCanonicalForm`

  Key theorems include:
    * `Transclusion.CanonicalPath.parentPath?_text`
    * `Transclusion.CanonicalPath.text_ofText`
    * `Transclusion.CanonicalPath.canonical_form`

  A path text is normalized by putting its components behind
  each other, where a double dot takes away the last name.
  What comes of it is the text of the canonical path: names
  with single slashes between them.
-/

------------------------------------------------------------
-- Components at the End of a Text
------------------------------------------------------------

namespace Transclusion

/- A path text without its last component, if it has one. -/
def popPath
    (path : String) : String :=
  (parentPath? path).getD path

/-
  A path text with one more component.  A double dot takes
  away a name and nothing else.
-/
def pushComponent
    (path : String) : Component → String
  | .root => joinPath path Component.root.text
  | .current => path
  | .parent =>
      match (components path).getLast? with
      | some (.name _) => popPath path
      | _ => path
  | .name text => joinPath path text

/- The components of a path text, put behind each other. -/
def normalizedPath
    (path : String) : String :=
  (components path).foldl pushComponent ""

/-
  The texts of canonical paths: a slash, and behind it names
  with single slashes between them.
-/
def IsCanonicalText
    (text : String) : Prop :=
  ∃ names,
    (∀ name ∈ names, IsName name) ∧
      text = "/" ++ "/".intercalate names

end Transclusion

------------------------------------------------------------
-- Names at the End of a Text
------------------------------------------------------------

namespace Transclusion

/- A name at the end of a path is not trimmed. -/
theorem IsName.trimEnd_reverse
    {name : String}
    (hName : IsName name)
    (before : List Char) :
    trimEnd (name.toList.reverse ++ before) =
      name.toList.reverse ++ before := by
  cases hChars : name.toList.reverse with
  | nil =>
      rw [List.reverse_eq_nil_iff, String.toList_eq_nil_iff]
        at hChars
      exact absurd hChars hName.notEmpty
  | cons c chars =>
      have hNoSlash : '/' ∉ c :: chars := by
        rw [← hChars]
        simpa using hName.noSlash
      have hFirst : c ≠ '/' := by
        rintro rfl
        exact hNoSlash List.mem_cons_self
      have hNotDot (rest : List Char) :
          c :: (chars ++ before) ≠ '.' :: '/' :: rest := by
        intro hDot
        rw [List.cons.injEq] at hDot
        cases chars with
        | nil =>
            apply hName.notCurrent
            rw [List.reverse_eq_iff, hDot.1] at hChars
            rw [← String.toList_inj, hChars]
            rfl
        | cons d chars =>
            rw [List.cons_append, List.cons.injEq] at hDot
            simp [hDot.2.1] at hNoSlash
      rw [List.cons_append]
      unfold trimEnd
      split
      · rename_i hRoot
        exact absurd (List.cons.inj hRoot).1 hFirst
      · rename_i rest _ hSlash
        exact absurd (List.cons.inj hSlash).1 hFirst
      · rename_i rest hDot
        exact absurd hDot (hNotDot rest)
      · rfl

/- The slash in front of a name is not part of its parent. -/
theorem IsName.parentPath?_append
    {name : String}
    (hName : IsName name)
    {before : List Char}
    (hBefore : ∀ c ∈ before.getLast?, c = '/') :
    parentPath? (String.ofList (before ++ name.toList)) =
      some
        (String.ofList (trimEnd before.reverse).reverse) := by
  have hTrim :
      trimEnd
          (String.ofList
            (before ++ name.toList)).toList.reverse =
        name.toList.reverse ++ before.reverse := by
    rw [String.toList_ofList, List.reverse_append,
      hName.trimEnd_reverse]
  apply parentPath?_of_trimEnd hTrim
  · simpa using hName.notEmpty
  · simpa using hName.noSlash
  · rwa [List.head?_reverse]

end Transclusion

------------------------------------------------------------
-- Texts of Names
------------------------------------------------------------

namespace Transclusion

namespace CanonicalPath

variable {path : CanonicalPath}
variable {name : String}

/- The text of a path up to where a further name begins. -/
def opening
    (path : CanonicalPath) : String :=
  if path.names = [] then path.text else path.text ++ "/"

/- A further name stands behind the opening. -/
theorem text_push_name
    (hName : IsName name)
    (path : CanonicalPath) :
    (path.push (.name name)).text = path.opening ++ name := by
  rcases push_name hName path with ⟨hAbsolute, hNames⟩
  have hText :
      (path.push (.name name)).text =
        if path.absolute then
          "/" ++ "/".intercalate (path.names ++ [name])
        else "/".intercalate (path.names ++ [name]) := by
    unfold text
    rw [hAbsolute, hNames]
  rw [hText]
  by_cases hEmpty : path.names = []
  · simp only [opening, text, hEmpty, if_true]
    cases path.absolute with
    | true => simp
    | false => simp
  · have hBehind :
        "/".intercalate (path.names ++ [name]) =
          "/".intercalate path.names ++ "/" ++ name := by
      rw [String.intercalate_append_of_ne_nil hEmpty
        (List.cons_ne_nil _ _), String.intercalate_singleton]
    rw [hBehind]
    simp only [opening, text, hEmpty, if_false]
    cases path.absolute with
    | true => simp [String.append_assoc]
    | false => simp

/- A path has no names, or a last one. -/
theorem names_cases
    (path : CanonicalPath) :
    path.names = [] ∨
      ∃ (directory : CanonicalPath) (name : String),
        IsName name ∧ path = directory.push (.name name) := by
  rcases List.eq_nil_or_concat path.names with
    hNone | ⟨front, name, hNames⟩
  · exact .inl hNone
  · have hName : IsName name := by
      apply path.isName
      rw [hNames, List.concat_eq_append]
      exact List.mem_concat_self
    rcases push_name hName path.parent with
      ⟨hAbsolute, hPushed⟩
    refine .inr ⟨path.parent, name, hName, ?_⟩
    ext1
    · exact hAbsolute.symm
    · rw [hPushed, names_parent, hNames, List.concat_eq_append,
        List.dropLast_concat]

/- A text without names is the root or empty. -/
theorem text_of_names_nil
    (hNone : path.names = []) :
    path.text = "/" ∨ path.text = "" := by
  unfold text
  rw [hNone]
  cases path.absolute with
  | true => exact .inl rfl
  | false => exact .inr rfl

/- A path without names is its own directory. -/
theorem parent_of_names_nil
    (hNone : path.names = []) :
    path.parent = path := by
  ext1
  · rfl
  · rw [names_parent, hNone]
    rfl

/- The text of a path is trimmed. -/
theorem trimEnd_text
    (path : CanonicalPath) :
    trimEnd path.text.toList.reverse =
      path.text.toList.reverse := by
  rcases path.names_cases with
    hNone | ⟨directory, name, hName, rfl⟩
  · rcases text_of_names_nil hNone with hText | hText
    · rw [hText]
      rfl
    · rw [hText]
      rfl
  · rw [text_push_name hName, String.toList_append,
      List.reverse_append, hName.trimEnd_reverse]

/- Trimming an opening leaves the path. -/
theorem trimEnd_opening
    (path : CanonicalPath) :
    trimEnd path.opening.toList.reverse =
      path.text.toList.reverse := by
  unfold opening
  split
  · exact path.trimEnd_text
  · rename_i hNames
    have hMore : path.text.toList.reverse ≠ [] := by
      rcases path.names_cases with
        hNone | ⟨directory, name, hName, rfl⟩
      · exact absurd hNone hNames
      · simp [text_push_name hName, hName.notEmpty]
    have hSlash :
        (path.text ++ "/").toList.reverse =
          '/' :: path.text.toList.reverse := by
      simp
    rw [hSlash]
    have hTrim := path.trimEnd_text
    cases hChars : path.text.toList.reverse with
    | nil => exact absurd hChars hMore
    | cons c chars =>
        rw [hChars] at hTrim
        rw [trimEnd]
        · exact hTrim
        · exact List.cons_ne_nil _ _

end CanonicalPath

end Transclusion

------------------------------------------------------------
-- Reading the Texts
------------------------------------------------------------

namespace Transclusion

namespace CanonicalPath

variable {path : CanonicalPath}
variable {name : String}

/- A name is behind all components in front of it. -/
theorem components_push_name
    (hName : IsName name)
    (path : CanonicalPath) :
    (path.push (.name name)).components =
      path.components ++ [.name name] := by
  rcases push_name hName path with ⟨hAbsolute, hNames⟩
  unfold components
  rw [hAbsolute, hNames]
  cases path.absolute with
  | true => simp
  | false => simp

/- The parent of a text is the text of the parent. -/
theorem parentPath?_text
    (hName : IsName name)
    (path : CanonicalPath) :
    parentPath? (path.push (.name name)).text =
      some path.text := by
  have hText :
      (path.push (.name name)).text =
        String.ofList
          (path.opening.toList ++ name.toList) := by
    simp [text_push_name hName]
  have hSlash :
      ∀ c ∈ path.opening.toList.getLast?, c = '/' := by
    unfold opening
    split
    · rename_i hNone
      rcases text_of_names_nil hNone with hText | hText
      · simp [hText]
      · simp [hText]
    · simp
  rw [hText, hName.parentPath?_append hSlash,
    path.trimEnd_opening, List.reverse_reverse,
    String.ofList_toList]

/- The root and the empty path have no parent. -/
theorem parentPath?_of_names_nil
    (hNone : path.names = []) :
    parentPath? path.text = none := by
  rcases text_of_names_nil hNone with hText | hText
  · rw [hText]
    rfl
  · rw [hText]
    rfl

/- The directory of a document, found in its text. -/
theorem popPath_text
    (path : CanonicalPath) :
    popPath path.text = path.parent.text := by
  unfold popPath
  rcases path.names_cases with
    hNone | ⟨directory, name, hName, rfl⟩
  · rw [parentPath?_of_names_nil hNone,
      parent_of_names_nil hNone]
    rfl
  · rw [parentPath?_text hName, Option.getD_some,
      parent_push_name hName]

/- A name stands behind the opening as a text does. -/
theorem joinPath_text
    (hName : IsName name)
    (path : CanonicalPath) :
    joinPath path.text name =
      (path.push (.name name)).text := by
  have hRelative : isAbsolutePath name = false := by
    have hAlone := isAbsolutePath_of_noSlash hName.noSlash
    rwa [String.ofList_toList] at hAlone
  unfold joinPath
  rw [if_neg (by rw [hRelative]; decide),
    text_push_name hName]
  unfold opening
  rcases path.names_cases with
    hNone | ⟨directory, last, hLast, rfl⟩
  · rw [if_pos hNone]
    rcases text_of_names_nil hNone with hText | hText
    · rw [hText]
      rfl
    · rw [hText]
      rfl
  · have hNotOpen :
        (directory.push
            (.name last)).text.toList.getLast?.all
          (· == '/') = false := by
      rw [text_push_name hLast, String.toList_append,
        List.getLast?_append_of_ne_nil _
          (by simpa using hLast.notEmpty)]
      cases hEnd : last.toList.getLast? with
      | none =>
          rw [List.getLast?_eq_none_iff,
            String.toList_eq_nil_iff] at hEnd
          exact absurd hEnd hLast.notEmpty
      | some c =>
          have hMem := List.mem_of_getLast? hEnd
          have hSlash : c ≠ '/' := by
            rintro rfl
            exact hLast.noSlash hMem
          simpa using hSlash
    have hNames := (push_name hLast directory).2
    rw [if_neg (by rw [hNotOpen]; decide),
      if_neg (by simp [hNames])]

/- The components of the text of a path are its own. -/
theorem components_text
    (path : CanonicalPath) :
    Transclusion.components path.text = path.components := by
  have hKept :
      (path.names.filter (· ≠ ".")).map Component.ofName =
        path.names.map Component.name := by
    rw [List.filter_eq_self.mpr]
    · apply List.map_congr_left
      intro name hName
      simp [Component.ofName,
        (path.isName name hName).notParent]
    · intro name hName
      simpa using (path.isName name hName).notCurrent
  have hNotCurrent : path.names.head? ≠ some "." := by
    intro hHead
    have hDot := path.isName "." (List.mem_of_head? hHead)
    exact hDot.notCurrent rfl
  unfold Transclusion.components components
  simp only [path.pathNames_text, path.isAbsolutePath_text,
    hKept, if_neg hNotCurrent]

end CanonicalPath

end Transclusion

------------------------------------------------------------
-- Normalized Texts
------------------------------------------------------------

namespace Transclusion

namespace CanonicalPath

variable {path : CanonicalPath}

/- Components are pushed onto texts as onto paths. -/
theorem pushComponent_text
    {component : Component}
    (hPushed : component.IsPushed)
    (path : CanonicalPath) :
    pushComponent path.text component =
      (path.push component).text := by
  cases component with
  | root => rfl
  | current => rw [push_current, pushComponent]
  | parent =>
      unfold pushComponent
      rw [path.components_text, push_parent]
      rcases path.names_cases with
        hNone | ⟨directory, name, hName, rfl⟩
      · rw [parent_of_names_nil hNone]
        unfold components
        rw [hNone]
        cases path.absolute with
        | true => rfl
        | false => rfl
      · rw [components_push_name hName, List.getLast?_concat]
        exact popPath_text _
  | name text => exact joinPath_text hPushed path

/- Components in a row are pushed onto texts as onto paths. -/
theorem foldl_pushComponent
    {components : List Component}
    (hPushed :
      ∀ component ∈ components, component.IsPushed)
    (path : CanonicalPath) :
    components.foldl pushComponent path.text =
      (components.foldl CanonicalPath.push path).text := by
  induction components generalizing path with
  | nil => rfl
  | cons component rest ih =>
      rw [List.forall_mem_cons] at hPushed
      rw [List.foldl_cons, List.foldl_cons,
        pushComponent_text hPushed.1]
      exact ih hPushed.2 (path.push component)

/-
  The text of the canonical form of a path is the path,
  normalized.
-/
theorem text_ofText
    (path : String) :
    (ofText path).text = normalizedPath path := by
  rw [ofText_eq_foldl_push]
  exact
    (foldl_pushComponent
      (fun _ => isPushed_of_mem_components)
      (origin false)).symm

end CanonicalPath

end Transclusion

------------------------------------------------------------
-- Climbing
------------------------------------------------------------

namespace Transclusion

/- A path text behind so many double dots. -/
def climb
    (times : Nat)
    (path : String) : String :=
  String.join (List.replicate times "../") ++ path

/- One more double dot is in front of the others. -/
theorem climb_succ
    (times : Nat)
    (path : String) :
    climb (times + 1) path =
      String.ofList
        (['.', '.'] ++ '/' :: (climb times path).toList) := by
  unfold climb
  rw [List.replicate_succ, String.join_cons,
    ← String.toList_inj]
  simp

/- Double dots are names in front of those of the path. -/
theorem pathNames_climb
    (times : Nat)
    (path : String) :
    pathNames (climb times path) =
      List.replicate times ".." ++ pathNames path := by
  induction times with
  | zero => simp [climb]
  | succ times ih =>
      have hDots :
          pathNames (String.ofList ['.', '.']) = [".."] :=
        pathNames_of_noSlash (by decide) (by decide)
      rw [climb_succ, pathNames_slash, hDots,
        String.ofList_toList, ih]
      rfl

/- Double dots are no root. -/
theorem isAbsolutePath_climb_succ
    (times : Nat)
    (path : String) :
    isAbsolutePath (climb (times + 1) path) = false := by
  rw [climb_succ, isAbsolutePath_append (List.cons_ne_nil _ _)]
  rfl

namespace CanonicalPath

/- Double dots take names away while there are any. -/
theorem foldl_step_replicate
    (times : Nat)
    (names : List String) :
    (List.replicate times "..").foldl step names =
      names.take (names.length - times) := by
  induction times generalizing names with
  | zero => simp
  | succ times ih =>
      have hStep : step names ".." = names.dropLast := rfl
      rw [List.replicate_succ, List.foldl_cons, hStep, ih,
        List.dropLast_eq_take, List.take_take,
        List.length_take]
      congr 1
      omega

/- The canonical form of a path taken from the root. -/
theorem canonicalizeFrom_root
    (path : String) :
    canonicalizeFrom "/" path = root.walk path := by
  change root.join path = _
  unfold join ofText
  by_cases hAbsolute : isAbsolutePath path = true
  · rw [if_pos hAbsolute, hAbsolute]
    rfl
  · rw [if_neg hAbsolute]

/- Enough double dots lead to the root and no further. -/
theorem canonicalizeFrom_climb
    {base : String}
    (hBase : isAbsolutePath base = true)
    {times : Nat}
    (hTimes : (ofText base).names.length ≤ times)
    (path : String) :
    canonicalizeFrom base (climb times path) =
      canonicalizeFrom "/" path := by
  cases times with
  | zero =>
      have hRoot : ofText base = root := by
        ext1
        · exact hBase
        · exact List.length_eq_zero_iff.mp (Nat.le_zero.mp hTimes)
      have hSame : climb 0 path = path := by simp [climb]
      rw [hSame]
      unfold canonicalizeFrom
      rw [hRoot]
      rfl
  | succ times =>
      have hNone :
          (ofText base).names.length - (times + 1) = 0 := by
        omega
      rw [canonicalizeFrom_root]
      unfold canonicalizeFrom join
      rw [isAbsolutePath_climb_succ, if_neg (by decide)]
      ext1
      · exact hBase
      · rw [names_walk, pathNames_climb, List.foldl_append,
          foldl_step_replicate, hNone, List.take_zero]
        rfl

end CanonicalPath

end Transclusion

------------------------------------------------------------
-- Canonical Forms
------------------------------------------------------------

namespace Transclusion

/-
  The text of the document that a reference names in the
  document with a text.
-/
def includedText
    (including reference : String) : String :=
  normalizedPath (joinPath (popPath including) reference)

namespace CanonicalPath

variable {path : CanonicalPath}

/-
  A path in canonical form.  Its text is a slash with names
  behind it, which are its components, is its own canonical
  form wherever it is taken from, and shows its directory.
-/
structure HasCanonicalForm
    (path : CanonicalPath) : Prop where
  absolute : path.absolute = true
  text : IsCanonicalText path.text
  components :
    Transclusion.components path.text = path.components
  again : ∀ base, canonicalizeFrom base path.text = path
  directory : popPath path.text = path.parent.text

/- A path taken from anywhere, if its text is absolute. -/
theorem canonicalizeFrom_of_absolute
    {path : String}
    (hAbsolute : isAbsolutePath path = true)
    (base : String) :
    canonicalizeFrom base path = ofText path := by
  unfold canonicalizeFrom join
  rw [if_pos hAbsolute]

/- Rooted paths are in canonical form. -/
theorem IsRooted.hasCanonicalForm
    (hRooted : path.IsRooted) :
    path.HasCanonicalForm := by
  have hText :
      path.text = "/" ++ "/".intercalate path.names := by
    unfold IsRooted at hRooted
    simp [CanonicalPath.text, hRooted]
  have hAbsolute : isAbsolutePath path.text = true :=
    path.isAbsolutePath_text.trans hRooted
  have hAgain (base : String) :
      canonicalizeFrom base path.text = path := by
    rw [canonicalizeFrom_of_absolute hAbsolute,
      path.ofText_text]
  exact
    ⟨hRooted, ⟨path.names, path.isName, hText⟩,
      path.components_text, hAgain, path.popPath_text⟩

/- The text of a path in canonical form tells it. -/
theorem HasCanonicalForm.text_inj
    {other : CanonicalPath}
    (hPath : path.HasCanonicalForm)
    (hOther : other.HasCanonicalForm) :
    path = other ↔ path.text = other.text := by
  refine ⟨congrArg CanonicalPath.text, ?_⟩
  intro hSame
  rw [← hPath.again "/", hSame, hOther.again]

/- An include is named by the text of what includes it. -/
theorem text_resolveInclude
    (path : CanonicalPath)
    (reference : String) :
    (resolveInclude path reference).text =
      includedText path.text reference := by
  unfold includedText
  rw [resolveInclude_eq, canonicalizeFrom_eq_ofText,
    text_ofText, path.popPath_text]

/- A chain of includes stays rooted. -/
theorem IsRooted.foldl_resolveInclude
    (hRooted : path.IsRooted)
    (references : List String) :
    (references.foldl Transclusion.resolveInclude
      path).IsRooted := by
  induction references generalizing path with
  | nil => exact hRooted
  | cons reference rest ih =>
      exact ih (hRooted.resolveInclude reference)

/- A chain of includes is followed from text to text. -/
theorem text_foldl_resolveInclude
    (references : List String)
    (path : CanonicalPath) :
    (references.foldl Transclusion.resolveInclude
        path).text =
      references.foldl includedText path.text := by
  induction references generalizing path with
  | nil => rfl
  | cons reference rest ih =>
      rw [List.foldl_cons, List.foldl_cons, ih,
        text_resolveInclude]

/-
  Paths are brought into canonical form.  The canonical form
  of a path from an absolute directory is its normalized
  text, stays below the root however far the path climbs,
  and has a directory in canonical form.  Two of them are
  the same if their texts are, and whatever a chain of
  references leads to is in canonical form again.
-/
theorem canonical_form
    {base : String}
    (hBase : isAbsolutePath base = true)
    (path : String) :
    let canonical := canonicalizeFrom base path
    canonical.text = normalizedPath (joinPath base path) ∧
      canonical.HasCanonicalForm ∧
        canonical.parent.HasCanonicalForm ∧
          (∀ times,
            (ofText base).names.length ≤ times →
              canonicalizeFrom base (climb times path) =
                canonicalizeFrom "/" path) ∧
            (∀ base' path',
              isAbsolutePath base' = true →
                (canonical = canonicalizeFrom base' path' ↔
                  canonical.text =
                    (canonicalizeFrom base' path').text)) ∧
              ∀ references : List String,
                let included :=
                  references.foldl resolveInclude canonical
                included.HasCanonicalForm ∧
                  included.text =
                    references.foldl includedText
                      canonical.text := by
  intro canonical
  have hRooted : canonical.IsRooted :=
    (isRooted_ofText hBase).join path
  refine
    ⟨?_, hRooted.hasCanonicalForm,
      hRooted.parent.hasCanonicalForm, ?_, ?_, ?_⟩
  · exact
      (congrArg CanonicalPath.text
          (canonicalizeFrom_eq_ofText base path)).trans
        (text_ofText _)
  · intro times hTimes
    exact canonicalizeFrom_climb hBase hTimes path
  · intro base' path' hBase'
    have hOther :
        (canonicalizeFrom base' path').IsRooted :=
      (isRooted_ofText hBase').join path'
    exact
      hRooted.hasCanonicalForm.text_inj
        hOther.hasCanonicalForm
  · intro references
    exact
      ⟨(hRooted.foldl_resolveInclude
          references).hasCanonicalForm,
        text_foldl_resolveInclude references canonical⟩

/-
  A path that climbs above the root from a directory which
  is not in canonical form itself, and two includes from it.
-/
theorem canonical_form_climbing :
    let base := "/srv/./conf/"
    let path := "../..//../x/./main.yaml/"
    let references := ["../../parts/a.yaml", "b.yaml"]
    isAbsolutePath base = true ∧
      normalizedPath (joinPath base path) =
          "/x/main.yaml" ∧
        (canonicalizeFrom base path).text =
            "/x/main.yaml" ∧
          references.foldl includedText "/x/main.yaml" =
              "/parts/b.yaml" ∧
            (references.foldl resolveInclude
                (canonicalizeFrom base path)).text =
              "/parts/b.yaml" := by
  intro base path references
  have hBase : isAbsolutePath base = true := by
    decide +kernel
  have hForm := canonical_form hBase path
  have hNormalized :
      normalizedPath (joinPath base path) =
        "/x/main.yaml" := by
    decide +kernel
  have hText :
      (canonicalizeFrom base path).text =
        "/x/main.yaml" :=
    hForm.1.trans hNormalized
  have hIncluded :
      references.foldl includedText "/x/main.yaml" =
        "/parts/b.yaml" := by
    decide +kernel
  have hChain := (hForm.2.2.2.2.2 references).2
  rw [hText, hIncluded] at hChain
  exact ⟨hBase, hNormalized, hText, hIncluded, hChain⟩

end CanonicalPath

end Transclusion
