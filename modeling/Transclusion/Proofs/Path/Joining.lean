import Mathlib.Data.List.Basic
import Transclusion.Path.Parent
import Transclusion.Proofs.Path.Spelling

/-
  Paths behind paths: joined as texts, and taken from each
  other.

  Key definitions include:
    * `Transclusion.joinPath`
    * `Transclusion.CanonicalPath.push`

  Key theorems include:
    * `Transclusion.parentPath?_cases`
    * `Transclusion.CanonicalPath.join_eq_foldl_push`
    * `Transclusion.CanonicalPath.join_joinPath`
    * `Transclusion.canonicalizeFrom_eq_ofText`
    * `Transclusion.references_compose`

  A path is taken from a directory one component after the
  other.  So it does not matter whether the canonical form
  is made of a part of it first or of the whole at once,
  though a double dot at the root is lost in both.
-/

------------------------------------------------------------
-- Joined Texts
------------------------------------------------------------

namespace Transclusion

/-
  One path text behind another, with a slash between them
  unless there is one.  An absolute text stands alone.
-/
def joinPath
    (path reference : String) : String :=
  if isAbsolutePath reference then reference
  else if path.toList.getLast?.all (· == '/') then
    path ++ reference
  else path ++ "/" ++ reference

variable {path reference : String}

/- A text that needs no slash is empty or ends in one. -/
theorem exists_of_endsOpen
    (hOpen : path.toList.getLast?.all (· == '/') = true) :
    path = "" ∨
      ∃ start, path = String.ofList (start ++ ['/']) := by
  cases hLast : path.toList.getLast? with
  | none =>
      rw [List.getLast?_eq_none_iff] at hLast
      exact .inl (String.toList_eq_nil_iff.mp hLast)
  | some c =>
      rw [hLast] at hOpen
      have hSlash : c = '/' := by simpa using hOpen
      rcases List.getLast?_eq_some_iff.mp hLast with
        ⟨start, hStart⟩
      refine .inr ⟨start, ?_⟩
      rw [← hSlash, ← hStart, String.ofList_toList]

/- A relative text adds its names to those before it. -/
theorem pathNames_joinPath
    (hRelative : isAbsolutePath reference = false)
    (path : String) :
    pathNames (joinPath path reference) =
      pathNames path ++ pathNames reference := by
  unfold joinPath
  rw [if_neg (by rw [hRelative]; decide)]
  split
  · rename_i hOpen
    rcases exists_of_endsOpen hOpen with
      rfl | ⟨start, rfl⟩
    · rw [String.empty_append]
      rfl
    · have hText :
          String.ofList (start ++ ['/']) ++ reference =
            String.ofList
              (start ++ '/' :: reference.toList) := by
        simp [← String.toList_inj]
      rw [hText, pathNames_slash, pathNames_slash,
        pathNames_empty, List.append_nil,
        String.ofList_toList]
  · have hText :
        path ++ "/" ++ reference =
          String.ofList
            (path.toList ++ '/' :: reference.toList) := by
      simp [← String.toList_inj]
    rw [hText, pathNames_slash, String.ofList_toList,
      String.ofList_toList]

/- A relative text behind another starts where that does. -/
theorem isAbsolutePath_joinPath
    (hRelative : isAbsolutePath reference = false)
    (path : String) :
    isAbsolutePath (joinPath path reference) =
      isAbsolutePath path := by
  unfold joinPath
  rw [if_neg (by rw [hRelative]; decide)]
  by_cases hEmpty : path = ""
  · subst hEmpty
    rw [if_pos (by rfl), String.empty_append, hRelative]
    rfl
  · have hStart (rest : List Char) :
        (path.toList ++ rest).head? =
          path.toList.head? := by
      rw [List.head?_append_of_ne_nil]
      simpa using hEmpty
    unfold isAbsolutePath
    split
    · rw [String.toList_append, hStart]
    · rw [String.append_assoc, String.toList_append, hStart]

end Transclusion

------------------------------------------------------------
-- Components of Texts
------------------------------------------------------------

namespace Transclusion

variable {before chars name : List Char}

/- A relative text starts with a name. -/
theorem pathNames_ne_nil
    (hNotEmpty : chars ≠ [])
    (hRelative :
      isAbsolutePath (String.ofList chars) = false) :
    pathNames (String.ofList chars) ≠ [] := by
  cases chars with
  | nil => exact absurd rfl hNotEmpty
  | cons c rest =>
      have hSlash : c ≠ '/' := by
        simpa [isAbsolutePath] using hRelative
      have hParts := List.splitOn_ne_nil '/' rest
      cases hRest : rest.splitOn '/' with
      | nil => exact absurd hRest hParts
      | cons name more =>
          simp [pathNames, splitSlashes_eq_splitOn,
            List.splitOn_cons_eq_if_modifyHead, hSlash,
            hRest]

/- A slash at the end of a path stands for nothing. -/
theorem components_slash
    (hNotEmpty : before ≠ []) :
    components (String.ofList (before ++ ['/'])) =
      components (String.ofList before) := by
  unfold components
  rw [isAbsolutePath_append hNotEmpty, pathNames_slash,
    pathNames_empty, List.append_nil]

/-
  A name behind a slash is the last component, and a dot
  there is none.
-/
theorem components_slash_name
    (hNotEmpty : name ≠ [])
    (hNoSlash : '/' ∉ name)
    (before : List Char) :
    components (String.ofList (before ++ '/' :: name)) =
      components (String.ofList (before ++ ['/'])) ++
        if name = ['.'] then []
        else [Component.ofName (String.ofList name)] := by
  have hInner :
      ([String.ofList name].filter (· ≠ ".")).map
          Component.ofName =
        if name = ['.'] then []
        else [Component.ofName (String.ofList name)] := by
    have hDot :
        String.ofList name = "." ↔ name = ['.'] := by
      rw [← String.toList_inj, String.toList_ofList]
      rfl
    by_cases hCurrent : name = ['.']
    · simp [hCurrent]
    · simp [hCurrent, hDot]
  rw [← hInner]
  unfold components
  rw [pathNames_slash, pathNames_slash, pathNames_empty,
    pathNames_of_noSlash hNotEmpty hNoSlash,
    List.append_nil]
  by_cases hEmpty : before = []
  · simp [hEmpty, isAbsolutePath]
  · rw [isAbsolutePath_append hEmpty,
      isAbsolutePath_append hEmpty]
    cases hAbsolute :
        isAbsolutePath (String.ofList before) with
    | true => simp
    | false =>
        -- The name is not the first one, so a dot is left out.
        have hNames := pathNames_ne_nil hEmpty hAbsolute
        simp only [List.head?_append_of_ne_nil _ hNames,
          List.filter_append, List.map_append,
          Bool.false_eq_true, if_false]
        split
        · exact List.cons_append.symm
        · rfl

/- What a path text is made of can be pushed. -/
def Component.IsPushed : Component → Prop
  | .name text => IsName text
  | _ => True

/- A text between slashes is pushed as what it stands for. -/
theorem Component.isPushed_ofName
    {name : String}
    (hSegment : IsSegment name)
    (hNotCurrent : name ≠ ".") :
    (Component.ofName name).IsPushed := by
  unfold Component.ofName
  split
  · exact trivial
  · rename_i hNotParent
    exact ⟨hSegment, hNotCurrent, hNotParent⟩

/- The names among the components of a path are names. -/
theorem isPushed_of_mem_components
    {path : String}
    {component : Component}
    (hMem : component ∈ components path) :
    component.IsPushed := by
  have hInner :
      ∀ other ∈
        ((pathNames path).filter (· ≠ ".")).map
          Component.ofName,
        other.IsPushed := by
    intro other hOther
    rcases List.mem_map.mp hOther with ⟨name, hName, rfl⟩
    rcases List.mem_filter.mp hName with ⟨hName, hKept⟩
    exact
      Component.isPushed_ofName
        (isSegment_of_mem_pathNames hName)
        (by simpa using hKept)
  unfold components at hMem
  dsimp only at hMem
  split at hMem
  · rcases List.mem_cons.mp hMem with rfl | hMem
    · exact trivial
    · exact hInner component hMem
  · split at hMem
    · rcases List.mem_cons.mp hMem with rfl | hMem
      · exact trivial
      · exact hInner component hMem
    · exact hInner component hMem

/- A name alone is the only component. -/
theorem dropLast_components_of_noSlash
    (hNotEmpty : name ≠ [])
    (hNoSlash : '/' ∉ name) :
    (components (String.ofList name)).dropLast = [] := by
  unfold components
  rw [isAbsolutePath_of_noSlash hNoSlash,
    pathNames_of_noSlash hNotEmpty hNoSlash]
  by_cases hCurrent : String.ofList name = "."
  · simp [hCurrent]
  · simp [hCurrent]

end Transclusion

------------------------------------------------------------
-- Components of Parents
------------------------------------------------------------

namespace Transclusion

/- Trimming keeps the components of a path. -/
theorem components_trimEnd
    (chars : List Char) :
    components (String.ofList (trimEnd chars).reverse) =
      components (String.ofList chars.reverse) := by
  fun_induction trimEnd chars with
  | case1 => rfl
  | case2 rest hMore ih =>
      have hRest : rest.reverse ≠ [] := by
        simpa using hMore
      rw [ih, List.reverse_cons, components_slash hRest]
  | case3 rest ih =>
      have hDot :
          components
              (String.ofList
                (rest.reverse ++ '/' :: ['.'])) =
            components
                (String.ofList (rest.reverse ++ ['/'])) ++
              [] :=
        components_slash_name (by simp) (by simp) _
      rw [ih]
      simpa using hDot.symm
  | case4 => rfl

/-
  A trimmed path, from its end to its start: it is empty, or
  the root, or a name comes first, which is only a dot if
  that is all there is.
-/
theorem trimEnd_cases
    (chars : List Char) :
    trimEnd chars = [] ∨ trimEnd chars = ['/'] ∨
      ∃ name rest,
        trimEnd chars = name ++ rest ∧ name ≠ [] ∧
          '/' ∉ name ∧
            (rest = [] ∨
              ∃ more,
                rest = '/' :: more ∧ name ≠ ['.']) := by
  fun_induction trimEnd chars with
  | case1 => exact .inr (.inl rfl)
  | case2 rest hMore ih => exact ih
  | case3 rest ih => exact ih
  | case4 chars hRoot hSlash hDot =>
      cases chars with
      | nil => exact .inl rfl
      | cons c chars =>
          have hFirst : c ≠ '/' := by
            rintro rfl
            exact hSlash chars rfl
          refine .inr (.inr ?_)
          by_cases hMem : '/' ∈ chars
          · rcases List.eq_append_cons_of_mem hMem with
              ⟨name, more, rfl, hName⟩
            refine
              ⟨c :: name, '/' :: more, rfl, by simp,
                by simp [hName, Ne.symm hFirst],
                .inr ⟨more, rfl, ?_⟩⟩
            intro hCurrent
            rw [List.cons.injEq] at hCurrent
            rcases hCurrent with ⟨rfl, rfl⟩
            exact hDot more rfl
          · exact
              ⟨c :: chars, [], by simp, by simp,
                by simp [hMem, Ne.symm hFirst], .inl rfl⟩

/- A parent is what comes before the last name. -/
theorem parentPath?_of_trimEnd
    {path : String}
    {name rest : List Char}
    (hTrim : trimEnd path.toList.reverse = name ++ rest)
    (hNotEmpty : name ≠ [])
    (hNoSlash : '/' ∉ name)
    (hRest : ∀ c ∈ rest.head?, c = '/') :
    parentPath? path =
      some (String.ofList (trimEnd rest).reverse) := by
  have hDrop :
      (name ++ rest).dropWhile (· ≠ '/') = rest := by
    rw [List.dropWhile_append_of_pos]
    · cases rest with
      | nil => rfl
      | cons c more =>
          have hSlash : c = '/' := hRest c rfl
          simp [hSlash]
    · intro c hMem
      have hOther : c ≠ '/' := by
        rintro rfl
        exact hNoSlash hMem
      simpa using hOther
  unfold parentPath?
  rw [hTrim]
  split
  · rename_i hNil
    simp [hNotEmpty] at hNil
  · rename_i hRoot
    cases name with
    | nil => exact absurd rfl hNotEmpty
    | cons c name =>
        rw [List.cons_append, List.cons.injEq] at hRoot
        rcases hRoot with ⟨rfl, _⟩
        exact absurd List.mem_cons_self hNoSlash
  · rw [hDrop]

/-
  The parent of a path has its components but the last.  A
  path without a parent is the root or has no components.
-/
theorem parentPath?_cases
    (path : String) :
    (∃ directory,
        parentPath? path = some directory ∧
          components directory =
            (components path).dropLast) ∨
      parentPath? path = none ∧
        (components path = [] ∨
          components path = [.root]) := by
  have hTrimmed := components_trimEnd path.toList.reverse
  rw [List.reverse_reverse, String.ofList_toList]
    at hTrimmed
  rw [← hTrimmed]
  rcases trimEnd_cases path.toList.reverse with
    hTrim | hTrim |
    ⟨name, rest, hTrim, hNotEmpty, hNoSlash, hRest⟩
  · refine .inr ⟨?_, .inl ?_⟩
    · unfold parentPath?
      rw [hTrim]
    · rw [hTrim]
      rfl
  · refine .inr ⟨?_, .inr ?_⟩
    · unfold parentPath?
      rw [hTrim]
      rfl
    · rw [hTrim]
      rfl
  · have hNotEmpty' : name.reverse ≠ [] := by
      simpa using hNotEmpty
    have hNoSlash' : '/' ∉ name.reverse := by
      simpa using hNoSlash
    have hParent :
        parentPath? path =
          some (String.ofList (trimEnd rest).reverse) := by
      apply parentPath?_of_trimEnd hTrim hNotEmpty hNoSlash
      rcases hRest with rfl | ⟨more, rfl, _hName⟩
      · simp
      · simp
    refine .inl ⟨_, hParent, ?_⟩
    rw [components_trimEnd, hTrim, List.reverse_append]
    rcases hRest with rfl | ⟨more, rfl, hName⟩
    · rw [List.reverse_nil, List.nil_append,
        dropLast_components_of_noSlash hNotEmpty' hNoSlash']
      rfl
    · have hName' : name.reverse ≠ ['.'] := by
        simpa using hName
      rw [List.reverse_cons, List.append_assoc,
        List.singleton_append,
        components_slash_name hNotEmpty' hNoSlash',
        if_neg hName', List.dropLast_concat]

end Transclusion

------------------------------------------------------------
-- Canonical Forms
------------------------------------------------------------

namespace Transclusion

namespace CanonicalPath

variable {name : String}

/- A segment is one step from a directory. -/
theorem join_segment
    (hSegment : IsSegment name)
    (directory : CanonicalPath) :
    (directory.join name).absolute = directory.absolute ∧
      (directory.join name).names =
        step directory.names name := by
  have hAlone := hSegment.pathNames_eq
  have hRelative := isAbsolutePath_of_noSlash hSegment.noSlash
  rw [String.ofList_toList] at hAlone hRelative
  unfold join
  rw [if_neg (by rw [hRelative]; decide)]
  refine ⟨rfl, ?_⟩
  rw [names_walk, hAlone]
  rfl

/- Segments in a row are steps in a row. -/
theorem foldl_join_segments
    {segments : List String}
    (hSegments : ∀ segment ∈ segments, IsSegment segment)
    (directory : CanonicalPath) :
    (segments.foldl join directory).absolute =
        directory.absolute ∧
      (segments.foldl join directory).names =
        segments.foldl step directory.names := by
  induction segments generalizing directory with
  | nil => exact ⟨rfl, rfl⟩
  | cons segment segments ih =>
      rw [List.forall_mem_cons] at hSegments
      rcases join_segment hSegments.1 directory with
        ⟨hAbsolute, hNames⟩
      rcases ih hSegments.2 (directory.join segment) with
        ⟨hAbsolute', hNames'⟩
      rw [hNames] at hNames'
      exact ⟨hAbsolute'.trans hAbsolute, hNames'⟩

/- A walk takes the names in a path text one by one. -/
theorem walk_eq_foldl_join
    (directory : CanonicalPath)
    (path : String) :
    directory.walk path =
      (pathNames path).foldl join directory := by
  rcases foldl_join_segments
      (fun _ => isSegment_of_mem_pathNames) directory with
    ⟨hAbsolute, hNames⟩
  exact CanonicalPath.ext hAbsolute.symm hNames.symm

/-
  A path with one more component.  A double dot takes away a
  name, if there is one, and a root all that was before.
-/
def push
    (path : CanonicalPath)
    (component : Component) : CanonicalPath :=
  path.join component.text

/- A dot stands for nothing. -/
theorem push_current
    (path : CanonicalPath) :
    path.push .current = path := by
  rfl

/- A double dot leads to the directory. -/
theorem push_parent
    (path : CanonicalPath) :
    path.push .parent = path.parent := by
  rfl

/- A name is put behind the others. -/
theorem push_name
    (hName : IsName name)
    (path : CanonicalPath) :
    (path.push (.name name)).absolute = path.absolute ∧
      (path.push (.name name)).names =
        path.names ++ [name] := by
  have hStep : step path.names name = path.names ++ [name] := by
    simp [step, hName.notCurrent, hName.notParent]
  rw [← hStep]
  exact join_segment hName.toIsSegment path

/- What is pushed as a name is taken away with it. -/
theorem parent_push_name
    (hName : IsName name)
    (path : CanonicalPath) :
    (path.push (.name name)).parent = path := by
  rcases push_name hName path with ⟨hAbsolute, hNames⟩
  ext1
  · exact hAbsolute
  · rw [names_parent, hNames, List.dropLast_concat]

/- The component of a text has that text. -/
theorem text_ofName
    (name : String) :
    (Component.ofName name).text = name := by
  unfold Component.ofName
  split
  · rename_i hParent
    exact hParent.symm
  · rfl

/- Components of names are pushed as the names are joined. -/
theorem foldl_push_names
    (names : List String)
    (path : CanonicalPath) :
    ((names.filter (· ≠ ".")).map Component.ofName).foldl
        push path =
      names.foldl join path := by
  induction names generalizing path with
  | nil => rfl
  | cons name names ih =>
      by_cases hCurrent : name = "."
      · rw [List.filter_cons_of_neg (by simp [hCurrent]),
          ih, List.foldl_cons, hCurrent]
        exact congrArg (names.foldl join) (push_current path).symm
      · rw [List.filter_cons_of_pos (by simp [hCurrent]),
          List.map_cons, List.foldl_cons, ih,
          List.foldl_cons, push, text_ofName]

/- A path is taken from a directory by its components. -/
theorem join_eq_foldl_push
    (directory : CanonicalPath)
    (path : String) :
    directory.join path =
      (Transclusion.components path).foldl push
        directory := by
  unfold join ofText Transclusion.components
  by_cases hAbsolute : isAbsolutePath path = true
  · simp only [hAbsolute, if_true, List.foldl_cons,
      foldl_push_names, walk_eq_foldl_join]
    rfl
  · simp only [if_neg hAbsolute, walk_eq_foldl_join]
    split
    · rw [List.foldl_cons, foldl_push_names, push_current]
    · rw [foldl_push_names]

/- The canonical form of a path is made of its components. -/
theorem ofText_eq_foldl_push
    (path : String) :
    ofText path =
      (Transclusion.components path).foldl push
        (origin false) := by
  rw [← join_eq_foldl_push]
  unfold join
  split
  · rfl
  · rename_i hRelative
    rw [Bool.not_eq_true] at hRelative
    unfold ofText
    rw [hRelative]

/-
  A joined path can be taken from a directory at once or one
  part after the other.
-/
theorem join_joinPath
    (directory : CanonicalPath)
    (path reference : String) :
    directory.join (joinPath path reference) =
      (directory.join path).join reference := by
  by_cases hAbsolute : isAbsolutePath reference = true
  · unfold joinPath
    rw [if_pos hAbsolute]
    unfold join
    rw [if_pos hAbsolute, if_pos hAbsolute]
  · rw [Bool.not_eq_true] at hAbsolute
    have hWalk (place : CanonicalPath) :
        place.walk (joinPath path reference) =
          (place.walk path).walk reference := by
      ext1
      · rfl
      · simp only [names_walk, pathNames_joinPath hAbsolute,
          List.foldl_append]
    unfold join ofText
    simp only [isAbsolutePath_joinPath hAbsolute, hWalk,
      hAbsolute, Bool.false_eq_true, if_false]
    split
    · rfl
    · rfl

end CanonicalPath

end Transclusion

------------------------------------------------------------
-- References
------------------------------------------------------------

namespace Transclusion

/-
  A reference in a document is a path from the text of its
  directory.
-/
theorem resolveInclude_eq
    (path : CanonicalPath)
    (reference : String) :
    resolveInclude path reference =
      canonicalizeFrom path.parent.text reference := by
  unfold resolveInclude canonicalizeFrom
  rw [path.parent.ofText_text]

end Transclusion

------------------------------------------------------------
-- Composition
------------------------------------------------------------

namespace Transclusion

/-
  The canonical form of a path from a directory is that of
  the joined text.
-/
theorem canonicalizeFrom_eq_ofText
    (directory path : String) :
    canonicalizeFrom directory path =
      CanonicalPath.ofText (joinPath directory path) := by
  unfold canonicalizeFrom
  rw [CanonicalPath.ofText_eq_foldl_push,
    CanonicalPath.ofText_eq_foldl_push,
    ← CanonicalPath.join_eq_foldl_push,
    ← CanonicalPath.join_eq_foldl_push,
    CanonicalPath.join_joinPath]

/-
  A path whose last component is a name has a parent, which
  leads to the directory of what the path leads to.
-/
theorem exists_parentPath
    {path name : String}
    (hLast :
      (components path).getLast? = some (.name name)) :
    ∃ directory,
      parentPath? path = some directory ∧
        ∀ start : CanonicalPath,
          (start.join path).parent =
            start.join directory := by
  have hName : IsName name :=
    isPushed_of_mem_components (List.mem_of_getLast? hLast)
  rcases List.getLast?_eq_some_iff.mp hLast with
    ⟨inner, hInner⟩
  rcases parentPath?_cases path with
    ⟨directory, hParent, hComponents⟩ |
    ⟨_hNone, hNil | hRoot⟩
  · refine ⟨directory, hParent, ?_⟩
    intro start
    rw [CanonicalPath.join_eq_foldl_push,
      CanonicalPath.join_eq_foldl_push, hComponents, hInner,
      List.dropLast_concat, List.foldl_append]
    exact CanonicalPath.parent_push_name hName _
  · rw [hNil] at hLast
    cases hLast
  · rw [hRoot] at hLast
    cases hLast

/-
  References compose.  A path taken from the canonical form
  of another is the one text behind the other, and a
  reference in an included document is one in the document
  that includes it, behind the parent of the first
  reference.  This holds wherever double dots lead.
-/
theorem references_compose :
    (∀ base path reference : String,
        canonicalizeFrom (canonicalizeFrom base path).text
            reference =
          canonicalizeFrom base
            (joinPath path reference)) ∧
      ∀ (including : CanonicalPath)
          (first second name : String),
        (components first).getLast? = some (.name name) →
          ∃ directory,
            parentPath? first = some directory ∧
              resolveInclude
                  (resolveInclude including first) second =
                resolveInclude including
                  (joinPath directory second) := by
  constructor
  · intro base path reference
    unfold canonicalizeFrom
    rw [CanonicalPath.ofText_text,
      CanonicalPath.join_joinPath]
  · intro including first second name hLast
    rcases exists_parentPath hLast with
      ⟨directory, hParent, hDirectory⟩
    refine ⟨directory, hParent, ?_⟩
    unfold resolveInclude
    rw [hDirectory, CanonicalPath.join_joinPath]

/-
  A reference that climbs above the root, found in a
  document and followed from one that it includes.
-/
theorem references_compose_climbing :
    let including : CanonicalPath :=
      .ofText "/srv/main.yaml"
    let first := "../../conf/./part.yaml/."
    (components first).getLast? =
        some (.name "part.yaml") ∧
      parentPath? first = some "../../conf" ∧
        resolveInclude (resolveInclude including first)
            "../../x.yaml" =
          resolveInclude including
            "../../conf/../../x.yaml" := by
  intro including first
  have hLast :
      (components first).getLast? =
        some (.name "part.yaml") := by
    decide +kernel
  have hParent :
      parentPath? first = some "../../conf" := by
    decide +kernel
  rcases references_compose.2 including first "../../x.yaml"
      "part.yaml" hLast with
    ⟨directory, hDirectory, hSame⟩
  rw [hParent, Option.some.injEq] at hDirectory
  have hJoined :
      joinPath directory "../../x.yaml" =
        "../../conf/../../x.yaml" := by
    rw [← hDirectory]
    decide +kernel
  exact ⟨hLast, hParent, hJoined ▸ hSame⟩

end Transclusion
