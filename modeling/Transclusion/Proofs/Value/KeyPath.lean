import Mathlib.Data.List.Infix
import Transclusion.Proofs.Value.Fields

/-
  Values inside objects, by the path of keys to them.

  Key definitions include:
    * `Transclusion.Value.at?`
    * `Transclusion.Value.CutsOff`
    * `Transclusion.Value.Touches`
    * `Transclusion.Value.paths`

  Key theorems include:
    * `Transclusion.Value.cutsOff_cons_iff`
    * `Transclusion.Value.at?_eq_none_of_cutsOff`
    * `Transclusion.Value.not_touches_cons_iff`
    * `Transclusion.Value.mem_paths_iff`

  A path leads through objects only.  What is no object and
  stands on the way cuts off everything behind it.
-/

------------------------------------------------------------
-- Values by Path
------------------------------------------------------------

namespace Transclusion

namespace Value

/- What an object has under a key. -/
def field?
    (value : Value)
    (key : String) : Option Value :=
  match value with
  | .object fields => Fields.get? fields key
  | _ => none

/- What is found by a path of keys. -/
def at? : Value → List String → Option Value
  | value, [] => some value
  | value, key :: rest =>
      (value.field? key).bind fun inner => inner.at? rest

/- The fields of an object are its own. -/
@[simp]
theorem field?_object
    (fields : Fields)
    (key : String) :
    (Value.object fields).field? key =
      Fields.get? fields key := by
  rfl

/- What is no object has no fields. -/
theorem field?_of_kind_ne
    {value : Value}
    (hKind : value.kind ≠ .object)
    (key : String) :
    value.field? key = none := by
  cases value with
  | object => cases hKind rfl
  | _ => rfl

/- No path leads to the value itself. -/
@[simp]
theorem at?_nil
    (value : Value) :
    value.at? [] = some value := by
  rfl

/- A path leads on from what is under its first key. -/
theorem at?_cons
    (value : Value)
    (key : String)
    (rest : List String) :
    value.at? (key :: rest) =
      (value.field? key).bind fun inner =>
        inner.at? rest := by
  rfl

/- Nothing is found inside what is no object. -/
theorem at?_cons_of_kind_ne
    {value : Value}
    (hKind : value.kind ≠ .object)
    (key : String)
    (rest : List String) :
    value.at? (key :: rest) = none := by
  rw [at?_cons, field?_of_kind_ne hKind, Option.bind_none]

end Value

end Transclusion

------------------------------------------------------------
-- Paths Cut Off
------------------------------------------------------------

namespace Transclusion

namespace Value

/- Something on the way of a path, before its end, is no object. -/
def CutsOff
    (value : Value)
    (path : List String) : Prop :=
  ∃ shorter found,
    shorter <+: path ∧ shorter ≠ path ∧
      value.at? shorter = some found ∧
        found.kind ≠ .object

/- Nothing is on the way to the value itself. -/
theorem not_cutsOff_nil
    (value : Value) :
    ¬ value.CutsOff [] := by
  rintro ⟨shorter, found, hPrefix, hNe, _hFound⟩
  exact hNe (List.prefix_nil.mp hPrefix)

/-
  A path is cut off at once by what is no object, or later
  on by what is under its first key.
-/
theorem cutsOff_cons_iff
    {value : Value}
    {key : String}
    {rest : List String} :
    value.CutsOff (key :: rest) ↔
      value.kind ≠ .object ∨
        ∃ inner, value.field? key = some inner ∧
          inner.CutsOff rest := by
  constructor
  · rintro ⟨shorter, found, hPrefix, hNe, hFound, hKind⟩
    cases shorter with
    | nil =>
        cases hFound
        exact .inl hKind
    | cons name shorter =>
        rcases List.cons_prefix_cons.mp hPrefix with
          ⟨rfl, hShorter⟩
        rw [at?_cons, Option.bind_eq_some_iff] at hFound
        rcases hFound with ⟨inner, hInner, hFound⟩
        have hNe : shorter ≠ rest := by
          rintro rfl
          exact hNe rfl
        exact
          .inr
            ⟨inner, hInner, shorter, found, hShorter, hNe,
              hFound, hKind⟩
  · rintro (hKind | ⟨inner, hInner, shorter, found,
      hPrefix, hNe, hFound, hKind⟩)
    · exact
        ⟨[], value, List.nil_prefix,
          (List.cons_ne_nil key rest).symm, rfl, hKind⟩
    · refine
        ⟨key :: shorter, found,
          List.cons_prefix_cons.mpr ⟨rfl, hPrefix⟩, ?_, ?_,
          hKind⟩
      · intro hEq
        exact hNe (List.cons.inj hEq).2
      · rw [at?_cons, hInner]
        exact hFound

/- An object cuts off what it does under the first key. -/
theorem cutsOff_object_cons_iff
    {fields : Fields}
    {key : String}
    {rest : List String} :
    (Value.object fields).CutsOff (key :: rest) ↔
      ∃ inner, Fields.get? fields key = some inner ∧
        inner.CutsOff rest := by
  simp [cutsOff_cons_iff]

instance instDecidableCutsOff :
    (value : Value) → (path : List String) →
      Decidable (value.CutsOff path)
  | value, [] => isFalse value.not_cutsOff_nil
  | value, key :: rest =>
      have : DecidablePred fun inner : Value =>
          inner.CutsOff rest :=
        fun inner => instDecidableCutsOff inner rest
      decidable_of_iff
        (value.kind ≠ .object ∨
          ∃ inner ∈ value.field? key, inner.CutsOff rest)
        cutsOff_cons_iff.symm

/- Nothing is found by a path that is cut off. -/
theorem at?_eq_none_of_cutsOff
    {value : Value}
    {path : List String}
    (hCuts : value.CutsOff path) :
    value.at? path = none := by
  induction path generalizing value with
  | nil => cases not_cutsOff_nil value hCuts
  | cons key rest ih =>
      rcases cutsOff_cons_iff.mp hCuts with
        hKind | ⟨inner, hInner, hCuts⟩
      · exact at?_cons_of_kind_ne hKind key rest
      · rw [at?_cons, hInner]
        exact ih hCuts

end Value

end Transclusion

------------------------------------------------------------
-- Paths Touched
------------------------------------------------------------

namespace Transclusion

namespace Value

/- Whether a value decides what is found by a path. -/
def Touches
    (value : Value)
    (path : List String) : Prop :=
  (∃ found, value.at? path = some found) ∨
    value.CutsOff path

instance
    (value : Value)
    (path : List String) :
    Decidable (value.Touches path) :=
  decidable_of_iff
    ((value.at? path).isSome = true ∨ value.CutsOff path)
    (or_congr_left Option.isSome_iff_exists)

/- Each value decides about itself. -/
theorem touches_nil
    (value : Value) :
    value.Touches [] :=
  .inl ⟨value, rfl⟩

/-
  A value leaves a longer path alone if it is an object and
  what it has under the first key, if it has anything there,
  leaves the rest alone.
-/
theorem not_touches_cons_iff
    {value : Value}
    {key : String}
    {rest : List String} :
    ¬ value.Touches (key :: rest) ↔
      value.kind = .object ∧
        ∀ inner, value.field? key = some inner →
          ¬ inner.Touches rest := by
  simp only [Touches, cutsOff_cons_iff, at?_cons,
    Option.bind_eq_some_iff]
  constructor
  · intro hNone
    rw [not_or, not_or, not_not] at hNone
    refine ⟨hNone.2.1, fun inner hInner => ?_⟩
    rintro (⟨found, hFound⟩ | hCuts)
    · exact hNone.1 ⟨found, inner, hInner, hFound⟩
    · exact hNone.2.2 ⟨inner, hInner, hCuts⟩
  · rintro ⟨hObject, hRest⟩
      (⟨found, inner, hInner, hFound⟩ | hKind |
        ⟨inner, hInner, hCuts⟩)
    · exact hRest inner hInner (.inl ⟨found, hFound⟩)
    · exact hKind hObject
    · exact hRest inner hInner (.inr hCuts)

/- Nothing is found by a path that is left alone. -/
theorem at?_eq_none_of_not_touches
    {value : Value}
    {path : List String}
    (hAlone : ¬ value.Touches path) :
    value.at? path = none := by
  rw [Option.eq_none_iff_forall_ne_some]
  intro found hFound
  exact hAlone (.inl ⟨found, hFound⟩)

end Value

end Transclusion

------------------------------------------------------------
-- All Paths
------------------------------------------------------------

namespace Transclusion

namespace Value

mutual

/-
  The paths to everything that is found in a value, depth
  first: a value comes before what is in it, and that in the
  order of its keys.
-/
def paths : Value → List (List String)
  | .object fields => [] :: fieldPaths fields
  | _ => [[]]

/- The paths to the values of fields and what is in them. -/
def fieldPaths :
    List (String × Value) → List (List String)
  | [] => []
  | (key, value) :: rest =>
      (paths value).map (key :: ·) ++ fieldPaths rest

end

/- The paths in an object go through its fields. -/
@[simp]
theorem paths_object
    (fields : Fields) :
    (Value.object fields).paths =
      [] :: fieldPaths fields := by
  rw [paths]

/- In what is no object there is only the value itself. -/
theorem paths_of_kind_ne
    {value : Value}
    (hKind : value.kind ≠ .object) :
    value.paths = [[]] := by
  cases value with
  | object => cases hKind rfl
  | _ => simp [paths]

/- The value itself comes first. -/
theorem exists_paths_eq_cons
    (value : Value) :
    ∃ others, value.paths = [] :: others := by
  cases value with
  | object fields => exact ⟨_, paths_object fields⟩
  | _ => exact ⟨[], paths_of_kind_ne (by simp [kind])⟩

/-
  What nothing inside a value satisfies is satisfied by the
  path to the value itself, if by any.
-/
theorem find?_paths_of_not_cons
    {P : List String → Prop}
    [DecidablePred P]
    (value : Value)
    (hInside : ∀ key rest, ¬ P (key :: rest)) :
    (value.paths.find? fun path => P path) =
      if P [] then some [] else none := by
  rcases value.exists_paths_eq_cons with ⟨others, hPaths⟩
  by_cases hHere : P []
  · rw [if_pos hHere, hPaths]
    exact List.find?_cons_of_pos (decide_eq_true hHere)
  · rw [if_neg hHere, List.find?_eq_none]
    intro path _hPath
    cases path with
    | nil => simpa using hHere
    | cons key rest => simpa using hInside key rest

/- A path through fields begins with the key of one. -/
theorem mem_fieldPaths_iff
    {fields : Fields}
    {path : List String} :
    path ∈ fieldPaths fields ↔
      ∃ key value rest, (key, value) ∈ fields ∧
        rest ∈ value.paths ∧ key :: rest = path := by
  induction fields with
  | nil => simp [fieldPaths]
  | cons field fields ih =>
      obtain ⟨key, value⟩ := field
      rw [fieldPaths, List.mem_append, List.mem_map, ih]
      constructor
      · rintro (⟨rest, hRest, rfl⟩ |
          ⟨key', value', rest, hField, hRest, rfl⟩)
        · exact
            ⟨key, value, rest, List.mem_cons_self, hRest,
              rfl⟩
        · exact
            ⟨key', value', rest,
              List.mem_cons_of_mem _ hField, hRest, rfl⟩
      · rintro ⟨key', value', rest, hField, hRest, rfl⟩
        rcases List.mem_cons.mp hField with hHead | hTail
        · cases hHead
          exact .inl ⟨rest, hRest, rfl⟩
        · exact
            .inr ⟨key', value', rest, hTail, hRest, rfl⟩

/-
  Without repeated keys, the paths of a value are those by
  which something is found.
-/
theorem mem_paths_iff
    {value : Value}
    {path : List String}
    (hDistinct : value.hasDistinctKeys = true) :
    path ∈ value.paths ↔
      ∃ found, value.at? path = some found := by
  induction value using Value.induction generalizing path
      with
  | plain value hPlain =>
      have hKind : value.kind ≠ .object := by
        simp [hPlain]
      rw [paths_of_kind_ne hKind]
      cases path with
      | nil => simp
      | cons key rest => simp [at?_cons_of_kind_ne hKind]
  | array items ih =>
      have hKind : (Value.array items).kind ≠ .object := by
        simp
      rw [paths_of_kind_ne hKind]
      cases path with
      | nil => simp
      | cons key rest => simp [at?_cons_of_kind_ne hKind]
  | object fields ih =>
      rcases hasDistinctKeys_object_iff.mp hDistinct with
        ⟨hNodup, hValues⟩
      rw [paths_object]
      cases path with
      | nil => simp
      | cons key rest =>
          simp only [List.mem_cons, reduceCtorEq, false_or,
            mem_fieldPaths_iff, at?_cons, field?_object,
            Option.bind_eq_some_iff]
          constructor
          · rintro ⟨_, value, _, hField, hRest, hPath⟩
            cases hPath
            rcases (ih _ hField (hValues _ hField)).mp hRest
              with ⟨found, hFound⟩
            exact
              ⟨found, value,
                Fields.get?_eq_some_of_mem hNodup hField,
                hFound⟩
          · rintro ⟨found, value, hGet, hFound⟩
            have hField := Fields.mem_of_get?_eq_some hGet
            have hRest :=
              (ih _ hField (hValues _ hField)).mpr
                ⟨found, hFound⟩
            exact ⟨key, value, rest, hField, hRest, rfl⟩

end Value

end Transclusion
