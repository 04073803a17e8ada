import Mathlib.Order.Defs.Unbundled
import Mathlib.Tactic.Common

/-
  Runs of readings that keep a state and may fail.

  Key definitions include:
    * `Transclusion.Yaml.Meets`
    * `Transclusion.Yaml.Keeps`
    * `Transclusion.Yaml.Leads`

  Key theorems include:
    * `Transclusion.Yaml.bind_ok`
    * `Transclusion.Yaml.Meets.bind`
    * `Transclusion.Yaml.Keeps.bind`
    * `Transclusion.Yaml.Leads.bind`

  A run is taken apart step by step: what a step gives is
  what the rest of the reading goes on with.  It is described
  from both of its ends by what it gives if it succeeds and
  by what it fails with if it does not.
-/

------------------------------------------------------------
-- Steps of a Run
------------------------------------------------------------

namespace Transclusion

namespace Yaml

section

variable {ε σ α β : Type}
variable {state after : σ}
variable {result : α}

/- After a step that succeeds the rest goes on. -/
theorem bind_ok
    {first : StateT σ (Except ε) α}
    {next : α → StateT σ (Except ε) β}
    (hFirst : first state = .ok (result, after)) :
    (first >>= next) state = next result after := by
  change Except.bind (first state) _ = _
  rw [hFirst]
  rfl

/- What succeeds has steps that succeed. -/
theorem exists_of_bind_ok
    {first : StateT σ (Except ε) α}
    {next : α → StateT σ (Except ε) β}
    {final : β × σ}
    (hOk : (first >>= next) state = .ok final) :
    ∃ result after,
      first state = .ok (result, after) ∧
        next result after = .ok final := by
  change Except.bind (first state) _ = _ at hOk
  cases hFirst : first state with
  | error error =>
      rw [hFirst] at hOk
      cases hOk
  | ok pair =>
      rw [hFirst] at hOk
      exact ⟨pair.1, pair.2, rfl, hOk⟩

/- A result alone changes nothing. -/
@[simp]
theorem pure_ok :
    (pure result : StateT σ (Except ε) α) state =
      .ok (result, state) := by
  rfl

/- The state can be looked at. -/
@[simp]
theorem get_ok :
    (get : StateT σ (Except ε) σ) state =
      .ok (state, state) := by
  rfl

/- The state can be replaced. -/
@[simp]
theorem set_ok :
    (set after : StateT σ (Except ε) PUnit) state =
      .ok (⟨⟩, after) := by
  rfl

/- The state can be changed. -/
@[simp]
theorem modify_ok
    {change : σ → σ} :
    (modify change : StateT σ (Except ε) PUnit) state =
      .ok (⟨⟩, change state) := by
  rfl

end

end Yaml

end Transclusion

------------------------------------------------------------
-- Outcomes
------------------------------------------------------------

namespace Transclusion

namespace Yaml

variable {ε σ α β : Type}

/-
  What a run gives from a state is fine, or it fails with an
  error of a kind.
-/
def Meets
    (fault : ε → Prop)
    (run : StateT σ (Except ε) α)
    (state : σ)
    (fine : α → σ → Prop) : Prop :=
  match run state with
  | .ok (result, after) => fine result after
  | .error error => fault error

variable {fault : ε → Prop}
variable {fine : α → σ → Prop}
variable {state after : σ}
variable {result : α}
variable {run : StateT σ (Except ε) α}
variable {next : α → StateT σ (Except ε) β}
variable {final : β → σ → Prop}

/- After a step that succeeds the rest goes on. -/
theorem meets_bind_of_ok
    (hRun : run state = .ok (result, after)) :
    Meets fault (run >>= next) state final ↔
      Meets fault (next result) after final := by
  unfold Meets
  rw [bind_ok hRun]

/- What is fine in one sense can be so in another. -/
theorem Meets.imp
    {fine' : α → σ → Prop}
    (hRun : Meets fault run state fine)
    (hFine : ∀ result after,
      fine result after → fine' result after) :
    Meets fault run state fine' := by
  unfold Meets at hRun ⊢
  cases hOutcome : run state with
  | error error =>
      rw [hOutcome] at hRun
      exact hRun
  | ok pair =>
      rw [hOutcome] at hRun
      exact hFine _ _ hRun

/- What a run may fail with may be seen as another fault. -/
theorem Meets.weaken
    {fault' : ε → Prop}
    (hRun : Meets fault run state fine)
    (hFault : ∀ error, fault error → fault' error) :
    Meets fault' run state fine := by
  unfold Meets at hRun ⊢
  cases hOutcome : run state with
  | error error =>
      rw [hOutcome] at hRun
      exact hFault error hRun
  | ok pair =>
      rw [hOutcome] at hRun
      exact hRun

/- What is fine in two senses is fine in both at once. -/
theorem Meets.and
    {fault' : ε → Prop}
    {fine' : α → σ → Prop}
    (hRun : Meets fault run state fine)
    (hOther : Meets fault' run state fine') :
    Meets fault run state fun result after =>
      fine result after ∧ fine' result after := by
  unfold Meets at hRun hOther ⊢
  cases hOutcome : run state with
  | error error =>
      rw [hOutcome] at hRun
      exact hRun
  | ok pair =>
      rw [hOutcome] at hRun hOther
      exact ⟨hRun, hOther⟩

/- A run that has nothing to fail with succeeds. -/
theorem Meets.exists_ok
    (hRun : Meets (fun _ => False) run state fine) :
    ∃ result after,
      run state = .ok (result, after) ∧
        fine result after := by
  unfold Meets at hRun
  cases hOutcome : run state with
  | error error =>
      rw [hOutcome] at hRun
      exact hRun.elim
  | ok pair =>
      rw [hOutcome] at hRun
      exact ⟨pair.1, pair.2, rfl, hRun⟩

/- The rest goes on from whatever is fine. -/
theorem Meets.bind
    (hRun : Meets fault run state fine)
    (hNext : ∀ result after,
      fine result after →
        Meets fault (next result) after final) :
    Meets fault (run >>= next) state final := by
  unfold Meets at hRun
  cases hOutcome : run state with
  | error error =>
      rw [hOutcome] at hRun
      unfold Meets
      have hBind : (run >>= next) state = .error error := by
        change Except.bind (run state) _ = _
        rw [hOutcome]
        rfl
      rw [hBind]
      exact hRun
  | ok pair =>
      rw [hOutcome] at hRun
      rw [meets_bind_of_ok hOutcome]
      exact hNext _ _ hRun

end Yaml

end Transclusion

------------------------------------------------------------
-- Invariants
------------------------------------------------------------

namespace Transclusion

namespace Yaml

/-
  An invariant of the states of runs, and what they may find
  fault with.
-/
structure Guard (ε σ : Type) where
  kept : σ → Prop
  fault : ε → Prop

variable {ε σ α β : Type}

/-
  A run that keeps an invariant: it gives what is fine in a
  state that has the invariant, or an error that it may.
-/
def Keeps
    (guard : Guard ε σ)
    (run : StateT σ (Except ε) α)
    (state : σ)
    (fine : α → σ → Prop) : Prop :=
  Meets guard.fault run state fun result after =>
    guard.kept after ∧ fine result after

variable {guard : Guard ε σ}
variable {fine : α → σ → Prop}
variable {final : β → σ → Prop}
variable {state after : σ}
variable {result : α}
variable {run : StateT σ (Except ε) α}

/- The rest goes on from a state that has the invariant. -/
theorem Keeps.bind
    {next : α → StateT σ (Except ε) β}
    (hRun : Keeps guard run state fine)
    (hNext : ∀ result after,
      guard.kept after → fine result after →
        Keeps guard (next result) after final) :
    Keeps guard (run >>= next) state final :=
  Meets.bind hRun fun result after hAfter =>
    hNext result after hAfter.1 hAfter.2

/- What is fine in one sense can be so in another. -/
theorem Keeps.imp
    {fine' : α → σ → Prop}
    (hRun : Keeps guard run state fine)
    (hFine : ∀ result after,
      fine result after → fine' result after) :
    Keeps guard run state fine' :=
  Meets.imp hRun fun result after hAfter =>
    ⟨hAfter.1, hFine result after hAfter.2⟩

/- What is fine in some sense has the invariant at least. -/
theorem Keeps.any
    (hRun : Keeps guard run state fine) :
    Keeps guard run state fun _ _ => True :=
  hRun.imp fun _ _ _ => trivial

/- After a step that succeeds the rest goes on. -/
theorem keeps_bind_of_ok
    {next : α → StateT σ (Except ε) β}
    (hRun : run state = .ok (result, after)) :
    Keeps guard (run >>= next) state final ↔
      Keeps guard (next result) after final :=
  meets_bind_of_ok hRun

/- The state can be looked at. -/
theorem keeps_get
    {next : σ → StateT σ (Except ε) β} :
    Keeps guard (get >>= next) state final ↔
      Keeps guard (next state) state final :=
  keeps_bind_of_ok get_ok

/- The state can be replaced. -/
theorem keeps_set
    {next : PUnit → StateT σ (Except ε) β} :
    Keeps guard (set after >>= next) state final ↔
      Keeps guard (next ⟨⟩) after final :=
  keeps_bind_of_ok set_ok

/- The state can be changed. -/
theorem keeps_modify
    {change : σ → σ}
    {next : PUnit → StateT σ (Except ε) β} :
    Keeps guard (modify change >>= next) state final ↔
      Keeps guard (next ⟨⟩) (change state) final :=
  keeps_bind_of_ok modify_ok

/- A result alone changes nothing. -/
theorem keeps_pure
    (hState : guard.kept state)
    (hFine : fine result state) :
    Keeps guard (pure result) state fine :=
  ⟨hState, hFine⟩

end Yaml

end Transclusion

------------------------------------------------------------
-- Relations of States
------------------------------------------------------------

namespace Transclusion

namespace Yaml

variable {ε σ α β : Type}

/-
  A run that leads from any state along a relation, unless
  it fails.
-/
def Leads
    (along : σ → σ → Prop)
    (run : StateT σ (Except ε) α) : Prop :=
  ∀ state,
    Meets (fun _ => True) run state fun _ after =>
      along state after

variable {along : σ → σ → Prop}
variable {run : StateT σ (Except ε) α}

/- The rest leads on along the same relation. -/
theorem Leads.bind
    [IsTrans σ along]
    {next : α → StateT σ (Except ε) β}
    (hRun : Leads along run)
    (hNext : ∀ result, Leads along (next result)) :
    Leads along (run >>= next) := by
  intro state
  apply (hRun state).bind
  intro result after hAfter
  exact
    (hNext result after).imp fun _ _ hLast =>
      IsTrans.trans _ _ _ hAfter hLast

/- A run leads along all that its relation implies. -/
theorem Leads.imp
    {along' : σ → σ → Prop}
    (hRun : Leads along run)
    (hAlong : ∀ state after,
      along state after → along' state after) :
    Leads along' run :=
  fun state =>
    (hRun state).imp fun _ after => hAlong state after

/- The state can be looked at. -/
theorem leads_get
    {next : σ → StateT σ (Except ε) β}
    (hNext : ∀ state, Leads along (next state)) :
    Leads along (get >>= next) := by
  intro state
  rw [meets_bind_of_ok get_ok]
  exact hNext state state

/- What only looks leads nowhere else. -/
theorem leads_of_look
    [Std.Refl along]
    {look : σ → α}
    (hRun : ∀ state, run state = .ok (look state, state)) :
    Leads along run := by
  intro state
  unfold Meets
  simp only [hRun]
  exact Std.Refl.refl state

/- A result alone leads nowhere else. -/
theorem leads_pure
    [Std.Refl along]
    (result : α) :
    Leads along (pure result : StateT σ (Except ε) α) :=
  leads_of_look fun _ => pure_ok

end Yaml

end Transclusion
