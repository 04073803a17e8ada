import Transclusion.Resolve.Resolve

/-
  Runs one after another, and what they report.

  Key definitions include:
    * `Transclusion.Run.resolution`
    * `Transclusion.Resolver.run`
    * `Transclusion.Resolver.bounded`

  Key theorems include:
    * `Transclusion.Run.bind_result_eq_error_iff`
    * `Transclusion.Run.bind_resolution_eq_ok_iff`
    * `Transclusion.Resolver.trace_eq`

  A run of two runs ends well if both do, and then reports
  what the first reports and after it what the second does.
-/

------------------------------------------------------------
-- Results
------------------------------------------------------------

namespace Transclusion

variable {ε ε' α β : Type}

/- A result carried over comes from a result. -/
theorem map_eq_ok_iff
    {f : α → β}
    {result : Except ε α}
    {b : β} :
    result.map f = .ok b ↔
      ∃ a, result = .ok a ∧ f a = b := by
  cases result <;> simp [Except.map]

/- A result has no error to carry over. -/
@[simp]
theorem mapError_ok
    (f : ε → ε')
    (a : α) :
    (Except.ok a : Except ε α).mapError f = .ok a := by
  rfl

/- An error is carried over. -/
@[simp]
theorem mapError_error
    (f : ε → ε')
    (error : ε) :
    (Except.error error : Except ε α).mapError f =
      .error (f error) := by
  rfl

/- Errors carried over leave results alone. -/
theorem mapError_eq_ok_iff
    {f : ε → ε'}
    {result : Except ε α}
    {a : α} :
    result.mapError f = .ok a ↔ result = .ok a := by
  cases result <;> simp

/- An error carried over comes from an error. -/
theorem mapError_eq_error_iff
    {f : ε → ε'}
    {result : Except ε α}
    {error : ε'} :
    result.mapError f = .error error ↔
      ∃ inner, result = .error inner ∧ f inner = error := by
  cases result <;> simp

end Transclusion

------------------------------------------------------------
-- Runs
------------------------------------------------------------

namespace Transclusion

namespace Run

variable {α β : Type}

/- A run goes on where the one before it ended well. -/
theorem bind_of_ok
    {run : Run α}
    {next : α → Run β}
    {a : α}
    (hOk : run.result = .ok a) :
    run >>= next =
      ⟨run.steps ++ (next a).steps, (next a).result⟩ := by
  change run.andThen next = _
  simp [andThen, hOk]

/- A run stops where the one before it failed. -/
theorem bind_of_error
    {run : Run α}
    {next : α → Run β}
    {error : ResolveError}
    (hError : run.result = .error error) :
    run >>= next = ⟨run.steps, .error error⟩ := by
  change run.andThen next = _
  simp [andThen, hError]

/- Two runs fail where the first of them does. -/
theorem bind_result_eq_error_iff
    {run : Run α}
    {next : α → Run β}
    {error : ResolveError} :
    (run >>= next).result = .error error ↔
      run.result = .error error ∨
        ∃ a, run.result = .ok a ∧
          (next a).result = .error error := by
  cases hRun : run.result with
  | error error => simp [bind_of_error hRun]
  | ok a => simp [bind_of_ok hRun]

end Run

end Transclusion

------------------------------------------------------------
-- Reports
------------------------------------------------------------

namespace Transclusion

namespace Run

/-
  The report of a run: its document with the documents that
  were loaded and the warnings, both in order.
-/
def resolution
    (run : Run Value) : Except ResolveError Resolution :=
  run.result.map fun document =>
    { document := document
      files := run.steps.filterMap Step.file?
      warnings := run.steps.filterMap Step.warning? }

/- A report tells the result and the steps of a run. -/
theorem resolution_eq_ok_iff
    {run : Run Value}
    {whole : Resolution} :
    run.resolution = .ok whole ↔
      run.result = .ok whole.document ∧
        run.steps.filterMap Step.file? = whole.files ∧
          run.steps.filterMap Step.warning? =
            whole.warnings := by
  rcases whole with ⟨document, files, warnings⟩
  cases hRun : run.result <;>
    simp [resolution, hRun, Except.map]

/- Where there is no report, the run fails. -/
theorem resolution_eq_error_iff
    {run : Run Value}
    {error : ResolveError} :
    run.resolution = .error error ↔
      run.result = .error error := by
  cases hRun : run.result <;>
    simp [resolution, hRun, Except.map]

/- A run that ends well has a report. -/
theorem exists_resolution
    {run : Run Value}
    {document : Value}
    (hOk : run.result = .ok document) :
    ∃ whole, run.resolution = .ok whole ∧
      whole.document = document :=
  ⟨_, by rw [resolution, hOk]; rfl, rfl⟩

/- The report of two runs joins their reports. -/
theorem bind_resolution_eq_ok_iff
    {run : Run Value}
    {next : Value → Run Value}
    {whole : Resolution} :
    (run >>= next).resolution = .ok whole ↔
      ∃ first rest,
        run.resolution = .ok first ∧
          (next first.document).resolution = .ok rest ∧
            whole =
              { document := rest.document
                files := first.files ++ rest.files
                warnings :=
                  first.warnings ++ rest.warnings } := by
  cases hRun : run.result with
  | error error =>
      simp [bind_of_error hRun, resolution, hRun, Except.map]
  | ok document =>
      cases hNext : (next document).result with
      | error error =>
          simp [bind_of_ok hRun, resolution, hRun, hNext,
            Except.map]
      | ok last =>
          simp [bind_of_ok hRun, resolution, hRun, hNext,
            Except.map, eq_comm]

/- The report of a run inside another document. -/
theorem within_resolution_eq_ok_iff
    {path : CanonicalPath}
    {run : Run Value}
    {whole : Resolution} :
    (run.within path).resolution = .ok whole ↔
      run.resolution = .ok whole := by
  cases hRun : run.result <;>
    simp [within, resolution, hRun, Except.map]

end Run

end Transclusion

------------------------------------------------------------
-- Resolvers
------------------------------------------------------------

namespace Transclusion

namespace Resolver

/- The run that resolves a document on its own. -/
def run
    (resolver : Resolver)
    (root : CanonicalPath) : Run Value :=
  resolveDocument resolver.source resolver.config
    resolver.bound [] root true

/- A resolver with another bound. -/
def bounded
    (resolver : Resolver)
    (bound : Nat) : Resolver :=
  { resolver with bound := bound }

variable {resolver : Resolver}
variable {path : String}
variable {root : CanonicalPath}

/- Without a canonical path, nothing runs. -/
theorem trace_of_invalid
    {fault : Fault}
    (hFault : resolver.canonicalize path = .error fault) :
    resolver.trace path =
      ([], .error (.invalidPath path fault)) := by
  rw [trace, hFault]

/- A resolver runs from the canonical path. -/
theorem trace_eq
    (hRoot : resolver.canonicalize path = .ok root) :
    resolver.trace path =
      ((resolver.run root).steps,
        (resolver.run root).resolution.mapError
          .resolve) := by
  have hRun :
      resolveDocument resolver.source resolver.config
          resolver.bound [] root true =
        resolver.run root := rfl
  simp only [trace, hRoot, hRun]
  cases hResult : (resolver.run root).result <;>
    simp [Run.resolution, hResult, Except.map]

/- What is reported is the report of that run. -/
theorem report_eq
    (hRoot : resolver.canonicalize path = .ok root) :
    resolver.report path =
      (resolver.run root).resolution.mapError
        .resolve := by
  rw [report, trace_eq hRoot]

/- Without a canonical path, this is all that is reported. -/
theorem report_of_invalid
    {fault : Fault}
    (hFault : resolver.canonicalize path = .error fault) :
    resolver.report path =
      .error (.invalidPath path fault) := by
  rw [report, trace_of_invalid hFault]

/- What is resolved is the result of that run. -/
theorem resolve_eq
    (hRoot : resolver.canonicalize path = .ok root) :
    resolver.resolve path =
      (resolver.run root).result.mapError .resolve := by
  rw [resolve, report_eq hRoot]
  cases hResult : (resolver.run root).result <;>
    simp [Run.resolution, hResult, Except.map]

end Resolver

end Transclusion
