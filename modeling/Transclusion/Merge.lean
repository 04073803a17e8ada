import Transclusion.Value.Value

/-
  Merging one structured value into another under policies.

  Key definitions include:
    * `Transclusion.MergeOptions`
    * `Transclusion.MergeConflict`
    * `Transclusion.mergeFields`
    * `Transclusion.merge`

  Keys on one side only are carried through.  A key on both
  sides is settled by the policies: objects merge field by
  field, arrays follow the array policy, and everything else
  follows the key policy.
-/

------------------------------------------------------------
-- Policies
------------------------------------------------------------

namespace Transclusion

/- Which of two conflicting values is kept. -/
inductive KeyPolicy where
  | first
  | second
  | error
  deriving DecidableEq

/- What becomes of two arrays under one key. -/
inductive ArrayPolicy where
  | appendSecond
  | appendFirst
  | first
  | second
  | byKey
  deriving DecidableEq

/-
  The policies of a merge.  `recursive` merges objects found
  under one key instead of settling them as a whole.
-/
structure MergeOptions where
  keyPolicy : KeyPolicy := .second
  arrayPolicy : ArrayPolicy := .appendSecond
  recursive : Bool := true
  deriving DecidableEq

end Transclusion

------------------------------------------------------------
-- Conflicts
------------------------------------------------------------

namespace Transclusion

/-
  Two different values met where only equal ones may.  The
  path is empty for the operands themselves.
-/
structure MergeConflict where
  path : List String
  deriving DecidableEq

namespace MergeConflict

/- The conflict as seen from above a key. -/
def under
    (key : String)
    (conflict : MergeConflict) : MergeConflict :=
  ⟨key :: conflict.path⟩

/- The key path with dots between its keys. -/
def pathText
    (conflict : MergeConflict) : String :=
  match conflict.path with
  | [] => "<root>"
  | keys => ".".intercalate keys

/- What is said about the conflict. -/
def message
    (conflict : MergeConflict) : String :=
  "conflicting values at '" ++ conflict.pathText ++ "'"

end MergeConflict

end Transclusion

------------------------------------------------------------
-- Merging
------------------------------------------------------------

namespace Transclusion

/- Settle two values as wholes. -/
def settle
    (policy : KeyPolicy)
    (first second : Value) :
    Except MergeConflict Value :=
  match policy with
  | .first => .ok first
  | .second => .ok second
  | .error =>
      if first.same second then .ok first
      else .error ⟨[]⟩

/- Combine two arrays found under one key. -/
def mergeArrays
    (options : MergeOptions)
    (first second : List Value) :
    Except MergeConflict Value :=
  match options.arrayPolicy with
  | .appendSecond => .ok (.array (first ++ second))
  | .appendFirst => .ok (.array (second ++ first))
  | .first => .ok (.array first)
  | .second => .ok (.array second)
  | .byKey =>
      settle options.keyPolicy (.array first) (.array second)

/- The fields of the second object that the first lacks. -/
def newFields
    (first second : Fields) : Fields :=
  second.filter fun field =>
    !Fields.hasKey first field.1

mutual

/- Merge two values found under one key. -/
def mergeEntry
    (options : MergeOptions) :
    Value → Value → Except MergeConflict Value
  | .object first, .object second =>
      if options.recursive then do
        let shared ← mergeShared options first second
        return .object (shared ++ newFields first second)
      else
        settle options.keyPolicy
          (.object first) (.object second)
  | .array first, .array second =>
      mergeArrays options first second
  | first, second =>
      settle options.keyPolicy first second

/-
  The fields of the first object, each merged with the
  second object's value under the same key, if it has one.
-/
def mergeShared
    (options : MergeOptions) :
    List (String × Value) → List (String × Value) →
      Except MergeConflict (List (String × Value))
  | [], _ => return []
  | (key, value) :: rest, second => do
      let merged ←
        match Fields.get? second key with
        | some incoming =>
            (mergeEntry options value incoming).mapError
              (MergeConflict.under key)
        | none => .ok value
      let more ← mergeShared options rest second
      return (key, merged) :: more

end

/- Merge the fields of two objects. -/
def mergeFields
    (options : MergeOptions)
    (first second : Fields) :
    Except MergeConflict Fields := do
  let shared ← mergeShared options first second
  return shared ++ newFields first second

/-
  Merge the second value into the first.  Against an object,
  a null stands for the object without fields.
-/
def merge
    (options : MergeOptions)
    (first second : Value) :
    Except MergeConflict Value :=
  match first, second with
  | .object as, .object bs =>
      (mergeFields options as bs).map .object
  | .null, .object bs => .ok (.object bs)
  | .object as, .null => .ok (.object as)
  | _, _ => settle options.keyPolicy first second

end Transclusion
