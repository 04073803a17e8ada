import Transclusion.Disk.Disk

/-
  Files that are written and read again.

  Key definitions include:
    * `Transclusion.Place.IsFor`
    * `Transclusion.Tree.HoldsFile`
    * `Transclusion.Tree.Gains`

  Key theorems include:
    * `Transclusion.Tree.walkNames_gains`
    * `Transclusion.Tree.walk_gains`
    * `Transclusion.Disk.read_of_create`

  A walk that ends where a file can be made looks at nothing
  else there on its way.  Once the file is made the same
  walk leads to it, whatever links it follows.
-/

------------------------------------------------------------
-- Places for Files
------------------------------------------------------------

namespace Transclusion

/- The places where a file would get names. -/
inductive Place.IsFor
    (names : List String) : Place → Prop where
  | free
      {directory : List String}
      {name : String}
      (hNames : directory ++ [name] = names) :
      IsFor names (.free directory name)
  | found
      (content : ByteArray)
      (slash : Bool) :
      IsFor names (.found names (.file content) slash)

namespace Tree

variable {tree tree' : Tree}
variable {names here : List String}
variable {content : ByteArray}

/- Nothing but a file is under names. -/
def HoldsFile
    (tree : Tree)
    (names : List String) : Prop :=
  ∀ node,
    tree.node? names = some node →
      ∃ content, node = .file content

/- A tree with a file under names, and all else as before. -/
structure Gains
    (tree : Tree)
    (names : List String)
    (content : ByteArray)
    (tree' : Tree) : Prop where
  new : tree'.node? names = some (.file content)
  others :
    ∀ other, other ≠ names →
      tree'.node? other = tree.node? other

/- The root is no file. -/
theorem HoldsFile.ne_nil
    (hFile : tree.HoldsFile names) :
    names ≠ [] := by
  rintro rfl
  rcases hFile .directory rfl with ⟨content, hContent⟩
  cases hContent

/- A file is put under names, in place of any other. -/
theorem gains_put
    (tree : Tree)
    (content : ByteArray)
    (hNames : names ≠ []) :
    tree.Gains names content
      (tree.put names (.file content)) where
  new := node?_put_self tree _ hNames
  others := fun _ hOther => node?_put_of_ne tree _ hOther

/- A file can be put there again. -/
theorem Gains.put
    {old : ByteArray}
    (hGains : tree.Gains names old tree')
    (content : ByteArray)
    (hNames : names ≠ []) :
    tree.Gains names content
      (tree'.put names (.file content)) where
  new := node?_put_self tree' _ hNames
  others := by
    intro other hOther
    rw [node?_put_of_ne tree' _ hOther,
      hGains.others other hOther]

/- What is no file is still there once the file is made. -/
theorem Gains.node?_eq
    (hGains : tree.Gains names content tree')
    (hFile : tree.HoldsFile names)
    {node : Node}
    (hNode : tree.node? here = some node)
    (hNoFile : ∀ content, node ≠ .file content) :
    tree'.node? here = some node := by
  rw [hGains.others here, hNode]
  rintro rfl
  rcases hFile node hNode with ⟨content, hContent⟩
  exact hNoFile content hContent

/- Directories stay directories once the file is made. -/
theorem Gains.isDirectory_eq
    (hGains : tree.Gains names content tree')
    (hFile : tree.HoldsFile names)
    (hHere : tree.isDirectory here = true) :
    tree'.isDirectory here = true := by
  unfold isDirectory at hHere ⊢
  cases hNode : tree.node? here with
  | none =>
      rw [hNode] at hHere
      cases hHere
  | some node =>
      rw [hNode] at hHere
      have hNoFile (content : ByteArray) :
          node ≠ .file content := by
        rintro rfl
        cases hHere
      rw [hGains.node?_eq hFile hNode hNoFile]
      exact hHere

end Tree

end Transclusion

------------------------------------------------------------
-- Walks to Files
------------------------------------------------------------

namespace Transclusion

namespace Tree

section

variable {tree : Tree}
variable {purpose : Purpose}
variable {slash : Bool}
variable {name : String}
variable {here rest : List String}
variable
  {onLink :
    List String → List String → Bool →
      Except SystemFault Place}

/- What a walk needs to go on along a name. -/
structure Enters
    (tree : Tree)
    (purpose : Purpose)
    (slash : Bool)
    (here : List String)
    (name : String)
    (rest : List String) : Prop where
  open' :
    ¬ (purpose = .create ∧ rest = [] ∧ slash = true)
  here : tree.isDirectory here = true
  name : name.utf8ByteSize ≤ nameLimit

/- A walk along a name goes on with what is there. -/
theorem Enters.walkNames_eq
    (hEnters : Enters tree purpose slash here name rest)
    (hCurrent : name ≠ ".")
    (hParent : name ≠ "..") :
    tree.walkNames purpose onLink slash here
        (name :: rest) =
      match tree.node? (here ++ [name]) with
      | some .directory =>
          tree.walkNames purpose onLink slash
            (here ++ [name]) rest
      | some (.link target) =>
          if rest = [] && purpose = .entry then
            .ok (.found (here ++ [name]) (.link target)
              slash)
          else
            onLink
              (if isAbsolutePath target then [] else here)
              (pathNames target ++ rest)
              (slash ||
                (rest.isEmpty && endsInSlash target))
      | some node =>
          if rest = [] then
            .ok (.found (here ++ [name]) node slash)
          else .error .notDirectory
      | none =>
          if rest = [] then .ok (.free here name)
          else .error .notFound := by
  have hName : ¬ nameLimit < name.utf8ByteSize :=
    Nat.not_lt.mpr hEnters.name
  rw [walkNames]
  refine
    (if_neg hCurrent).trans
      ((if_neg hParent).trans
        ((if_neg ?_).trans
          ((if_neg ?_).trans (if_neg hName))))
  · simpa [and_assoc] using hEnters.open'
  · simp [hEnters.here]

/- A walk that ends somewhere goes on along its first name. -/
theorem enters_of_walkNames
    {place : Place}
    (hWalk :
      tree.walkNames purpose onLink slash here
          (name :: rest) =
        .ok place)
    (hCurrent : name ≠ ".")
    (hParent : name ≠ "..") :
    Enters tree purpose slash here name rest := by
  rw [walkNames, if_neg hCurrent, if_neg hParent] at hWalk
  split at hWalk
  · cases hWalk
  rename_i hOpen
  split at hWalk
  · cases hWalk
  rename_i hHere
  split at hWalk
  · cases hWalk
  rename_i hName
  exact
    ⟨by simpa [and_assoc] using hOpen, by simpa using hHere,
      Nat.not_lt.mp hName⟩

/- Where no directory or link is, a walk ends or fails. -/
theorem last_of_eq_ok
    {fault : SystemFault}
    {found place : Place}
    (hWalk :
      (if rest = [] then .ok found else .error fault) =
        (.ok place : Except SystemFault Place)) :
    rest = [] ∧ found = place := by
  split at hWalk
  · rename_i hLast
    exact ⟨hLast, Except.ok.inj hWalk⟩
  · cases hWalk

end

section

variable {tree tree' : Tree}
variable {names : List String}
variable {slash : Bool}
variable {name : String}
variable {here rest : List String}
variable {content : ByteArray}

/- A walk still goes on along a name once the file is made. -/
theorem Enters.gains
    (hEnters : Enters tree .create slash here name rest)
    (hFile : tree.HoldsFile names)
    (hGains : tree.Gains names content tree') :
    Enters tree' .reach slash here name rest where
  open' := by simp
  here := hGains.isDirectory_eq hFile hEnters.here
  name := hEnters.name

/- A walk finds the file once it is made. -/
theorem Enters.walkNames_made
    {onLink :
      List String → List String → Bool →
        Except SystemFault Place}
    (hEnters : Enters tree .create slash here name [])
    (hCurrent : name ≠ ".")
    (hParent : name ≠ "..")
    (hFile : tree.HoldsFile (here ++ [name]))
    (hGains :
      tree.Gains (here ++ [name]) content tree') :
    tree'.walkNames .reach onLink slash here [name] =
      .ok
        (.found (here ++ [name]) (.file content) false) := by
  have hOpen : slash = false := by
    simpa using hEnters.open'
  rw [(hEnters.gains hFile hGains).walkNames_eq hCurrent
    hParent, hGains.new]
  simp [hOpen]

/-
  A walk along names to where a file can be leads to the
  file once it is made, if the ways on from links do.
-/
theorem walkNames_gains
    {onLink :
      List String → List String → Bool →
        Except SystemFault Place}
    (onLink' :
      Tree → List String → List String → Bool →
        Except SystemFault Place)
    (hLinks :
      ∀ here rest slash place,
        onLink here rest slash = .ok place →
          place.IsFor names →
            tree.HoldsFile names ∧
              ∀ content tree',
                tree.Gains names content tree' →
                  onLink' tree' here rest slash =
                    .ok
                      (.found names (.file content) false))
    {slash : Bool}
    {here walked : List String}
    {place : Place}
    (hWalk :
      tree.walkNames .create onLink slash here walked =
        .ok place)
    (hFor : place.IsFor names) :
    tree.HoldsFile names ∧
      ∀ content tree',
        tree.Gains names content tree' →
          tree'.walkNames .reach (onLink' tree') slash here
              walked =
            .ok (.found names (.file content) false) := by
  induction walked generalizing here with
  | nil =>
      rw [walkNames] at hWalk
      cases hWalk
      cases hFor
  | cons name rest ih =>
      by_cases hCurrent : name = "."
      · simp only [walkNames, if_pos hCurrent] at hWalk ⊢
        exact ih hWalk
      by_cases hParent : name = ".."
      · simp only [walkNames, if_neg hCurrent,
          if_pos hParent] at hWalk ⊢
        exact ih hWalk
      have hEnters :=
        enters_of_walkNames hWalk hCurrent hParent
      rw [hEnters.walkNames_eq hCurrent hParent] at hWalk
      cases hNode : tree.node? (here ++ [name]) with
      | none =>
          rw [hNode] at hWalk
          rcases last_of_eq_ok hWalk with ⟨rfl, rfl⟩
          cases hFor with
          | free hNames =>
              subst hNames
              have hFile : tree.HoldsFile (here ++ [name]) := by
                intro node hSome
                rw [hNode] at hSome
                cases hSome
              exact
                ⟨hFile, fun _ _ =>
                  hEnters.walkNames_made hCurrent hParent
                    hFile⟩
      | some node =>
          rw [hNode] at hWalk
          cases node with
          | directory =>
              rcases ih hWalk with ⟨hFile, hReach⟩
              refine ⟨hFile, ?_⟩
              intro content tree' hGains
              rw [(hEnters.gains hFile hGains).walkNames_eq
                hCurrent hParent, hGains.node?_eq hFile hNode
                  (fun _ hSame => by cases hSame)]
              exact hReach content tree' hGains
          | link target =>
              simp only [reduceCtorEq, decide_false,
                Bool.and_false, Bool.false_eq_true,
                if_false] at hWalk
              rcases hLinks _ _ _ _ hWalk hFor with
                ⟨hFile, hReach⟩
              refine ⟨hFile, ?_⟩
              intro content tree' hGains
              rw [(hEnters.gains hFile hGains).walkNames_eq
                hCurrent hParent, hGains.node?_eq hFile hNode
                  (fun _ hSame => by cases hSame)]
              simpa using hReach content tree' hGains
          | file old =>
              rcases last_of_eq_ok hWalk with ⟨rfl, rfl⟩
              cases hFor
              have hFile : tree.HoldsFile (here ++ [name]) := by
                intro node hSome
                rw [hNode] at hSome
                cases hSome
                exact ⟨old, rfl⟩
              exact
                ⟨hFile, fun _ _ =>
                  hEnters.walkNames_made hCurrent hParent
                    hFile⟩
          | device takesData =>
              rcases last_of_eq_ok hWalk with ⟨rfl, rfl⟩
              cases hFor

/- The same holds with so many links to follow. -/
theorem walkLinks_gains
    {links : Nat}
    {slash : Bool}
    {here walked : List String}
    {place : Place}
    (hWalk :
      tree.walkLinks .create links here walked slash =
        .ok place)
    (hFor : place.IsFor names) :
    tree.HoldsFile names ∧
      ∀ content tree',
        tree.Gains names content tree' →
          tree'.walkLinks .reach links here walked slash =
            .ok (.found names (.file content) false) := by
  induction links generalizing slash here walked place with
  | zero =>
      simp only [walkLinks] at hWalk ⊢
      refine
        walkNames_gains
          (fun _ _ _ _ => .error .tooManyLinks)
          ?_ hWalk hFor
      intro here rest slash place hLink
      cases hLink
  | succ links ih =>
      simp only [walkLinks] at hWalk ⊢
      refine
        walkNames_gains
          (fun tree' => tree'.walkLinks .reach links)
          ?_ hWalk hFor
      intro here rest slash place hLink hFor
      exact ih hLink hFor

/-
  A path along which a file can be made leads to the file
  once it is made.
-/
theorem walk_gains
    {directory : List String}
    {path : String}
    {place : Place}
    (hWalk : tree.walk .create directory path = .ok place)
    (hFor : place.IsFor names) :
    tree.HoldsFile names ∧
      ∀ content tree',
        tree.Gains names content tree' →
          tree'.walk .reach directory path =
            .ok (.found names (.file content) false) := by
  unfold walk at hWalk ⊢
  by_cases hEmpty : path = ""
  · rw [if_pos hEmpty] at hWalk
    cases hWalk
  by_cases hLong : pathLimit < path.utf8ByteSize
  · rw [if_neg hEmpty, if_pos hLong] at hWalk
    cases hWalk
  simp only [if_neg hEmpty, if_neg hLong] at hWalk ⊢
  exact walkLinks_gains hWalk hFor

end

end Tree

end Transclusion

------------------------------------------------------------
-- Writing and Reading
------------------------------------------------------------

namespace Transclusion

namespace Disk

variable {disk opened : Disk}
variable {path : String}

/- A file is opened where it is or can be, and is empty. -/
theorem create_eq_ok_file
    {names : List String}
    (hCreate :
      disk.create path = .ok (opened, .file names)) :
    path.contains '\x00' = false ∧
      opened = disk.put names (.file .empty) ∧
        ∃ place,
          disk.walk .create path = .ok place ∧
            place.IsFor names := by
  unfold create at hCreate
  by_cases hNull : path.contains '\x00' = true
  · rw [if_pos hNull] at hCreate
    cases hCreate
  rw [if_neg hNull] at hCreate
  refine ⟨by simpa using hNull, ?_⟩
  split at hCreate
  · cases hCreate
  · rename_i directory name hWalk
    cases hCreate
    exact ⟨rfl, _, hWalk, .free rfl⟩
  · rename_i found node slash hWalk
    cases node with
    | file content =>
        cases hCreate
        exact ⟨rfl, _, hWalk, .found content slash⟩
    | directory => cases hCreate
    | link target => cases hCreate
    | device takesData => cases hCreate

/- A file of the octets of a text holds the text. -/
theorem nodeText_file
    (text : String) :
    nodeText (.file text.toUTF8) = .ok text := by
  have hText : String.fromUTF8? text.toUTF8 = some text := by
    unfold String.fromUTF8?
    exact dif_pos text.isValidUTF8
  simp only [nodeText, hText]

/-
  A text that a file was given is read again under the path
  under which the file was opened.
-/
theorem read_of_create
    {names : List String}
    (hCreate :
      disk.create path = .ok (opened, .file names))
    (text : String) :
    (opened.put names (.file text.toUTF8)).read path =
      .ok text := by
  rcases create_eq_ok_file hCreate with
    ⟨hNull, rfl, place, hWalk, hFor⟩
  rcases Tree.walk_gains hWalk hFor with ⟨hFile, hReach⟩
  have hGains :=
    (disk.tree.gains_put .empty hFile.ne_nil).put
      text.toUTF8 hFile.ne_nil
  have hFound :
      ((disk.put names (.file .empty)).put names
          (.file text.toUTF8)).walk .reach path =
        .ok (.found names (.file text.toUTF8) false) :=
    hReach _ _ hGains
  unfold read
  rw [hNull, if_neg (by decide), hFound]
  exact nodeText_file text

end Disk

end Transclusion
