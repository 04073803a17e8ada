import Mathlib.Data.Finset.Dedup
import Mathlib.Data.Finset.Basic
import Transclusion.Proofs.Resolve.Run

/-
  Resolution with one chain of documents that all calls
  share and change.

  Key definitions include:
    * `Transclusion.ActiveChain`
    * `Transclusion.Sharing`
    * `Transclusion.Sharing.entering`
    * `Transclusion.resolveSharing`
    * `Transclusion.Sharing.Refines`

  Key theorems include:
    * `Transclusion.ActiveChain.leave_enter`
    * `Transclusion.Sharing.Refines.bind`
    * `Transclusion.Sharing.Refines.entering`
    * `Transclusion.resolveSharing_refines`
    * `Transclusion.Resolver.run_sharing`

  The chain is kept twice, as a stack and as a set.  Every
  call leaves the document that it has entered, however it
  ends, so the chain is the same behind the call as before.
  Then it does not matter that the chain is shared.
-/

------------------------------------------------------------
-- Active Chains
------------------------------------------------------------

namespace Transclusion

/-
  The documents being resolved: on a stack, the outermost
  first, and as a set.
-/
structure ActiveChain where
  stack : List CanonicalPath := []
  members : Finset CanonicalPath := ∅
  deriving DecidableEq

namespace ActiveChain

/- Enter a document, unless it is being resolved already. -/
def enter
    (chain : ActiveChain)
    (path : CanonicalPath) :
    Except ResolveError Unit × ActiveChain :=
  if path ∈ chain.members then
    (.error (.circular path (chain.stack ++ [path])), chain)
  else
    (.ok (),
      { stack := chain.stack ++ [path]
        members := insert path chain.members })

/- Leave the document that was entered last. -/
def leave
    (chain : ActiveChain) : ActiveChain :=
  match chain.stack.getLast? with
  | none => chain
  | some path =>
      { stack := chain.stack.dropLast
        members := chain.members.erase path }

/-
  A chain on which no document stands twice, and whose set
  holds the documents of its stack.
-/
structure IsTidy
    (chain : ActiveChain) : Prop where
  nodup : chain.stack.Nodup
  members : chain.members = chain.stack.toFinset

variable {chain : ActiveChain}
variable {path : CanonicalPath}

/- The chain without documents is tidy. -/
theorem IsTidy.empty : IsTidy {} :=
  ⟨List.nodup_nil, rfl⟩

/- The set of a tidy chain tells what is on its stack. -/
theorem IsTidy.mem_members_iff
    (hTidy : chain.IsTidy) :
    path ∈ chain.members ↔ path ∈ chain.stack := by
  rw [hTidy.members, List.mem_toFinset]

/- A document that cannot be entered leaves no trace. -/
theorem enter_of_mem
    (hMem : path ∈ chain.members) :
    chain.enter path =
      (.error (.circular path (chain.stack ++ [path])),
        chain) := by
  unfold enter
  rw [if_pos hMem]

/- A new document is added on both sides. -/
theorem enter_of_not_mem
    (hNew : path ∉ chain.members) :
    chain.enter path =
      (.ok (),
        { stack := chain.stack ++ [path]
          members := insert path chain.members }) := by
  unfold enter
  rw [if_neg hNew]

/- What cannot be entered changes nothing. -/
theorem enter_eq_self_of_error
    {error : ResolveError}
    (hError : (chain.enter path).1 = .error error) :
    (chain.enter path).2 = chain := by
  by_cases hMem : path ∈ chain.members
  · rw [enter_of_mem hMem]
  · rw [enter_of_not_mem hMem] at hError
    cases hError

/- Entering a document keeps the chain tidy. -/
theorem IsTidy.enter
    (hTidy : chain.IsTidy)
    (path : CanonicalPath) :
    (chain.enter path).2.IsTidy := by
  by_cases hMem : path ∈ chain.members
  · rw [enter_of_mem hMem]
    exact hTidy
  · rw [enter_of_not_mem hMem]
    have hNew : path ∉ chain.stack :=
      mt hTidy.mem_members_iff.mpr hMem
    constructor
    · apply List.nodup_append'.mpr
      refine ⟨hTidy.nodup, List.nodup_singleton path, ?_⟩
      rw [List.disjoint_singleton]
      exact hNew
    · ext other
      rw [Finset.mem_insert, hTidy.members,
        List.mem_toFinset, List.mem_toFinset,
        List.mem_append, List.mem_singleton, or_comm]

/-
  Leaving takes back what entering did.  The document was
  not in the set before, so taking it out loses nothing.
-/
theorem leave_enter
    (hNew : path ∉ chain.members) :
    (chain.enter path).2.leave = chain := by
  rw [enter_of_not_mem hNew]
  unfold leave
  simp [Finset.erase_insert hNew]

end ActiveChain

end Transclusion

------------------------------------------------------------
-- Sharing a Chain
------------------------------------------------------------

namespace Transclusion

/- A call with the chain before and behind it. -/
structure ChainCall where
  before : ActiveChain
  after : ActiveChain

/-
  A run that changes a chain: the calls that ended, every
  chain that there was on the way, and the one in the end.
-/
structure Traversal (α : Type) where
  run : Run α
  calls : List ChainCall := []
  chains : List ActiveChain := []
  chain : ActiveChain

/- What may change the chain from which it starts. -/
structure Sharing (α : Type) where
  start : ActiveChain → Traversal α

namespace Sharing

variable {α β : Type}

/- A run that has nothing to do with the chain. -/
def ofRun
    (run : Run α) : Sharing α where
  start chain := { run := run, chain := chain }

/- One after the other, with the chain that is left behind. -/
def andThen
    (first : Sharing α)
    (next : α → Sharing β) : Sharing β where
  start chain :=
    let before := first.start chain
    match before.run.result with
    | .error error =>
        { before with
          run := ⟨before.run.steps, .error error⟩ }
    | .ok a =>
        let after := (next a).start before.chain
        { run := before.run >>= fun _ => after.run
          calls := before.calls ++ after.calls
          chains := before.chains ++ after.chains
          chain := after.chain }

instance : Monad Sharing where
  pure a := ofRun (pure a)
  bind := andThen

/- Inside the resolution of another document. -/
def within
    (path : CanonicalPath)
    (sharing : Sharing α) : Sharing α where
  start chain :=
    let whole := sharing.start chain
    { whole with run := whole.run.within path }

/- A call, with the chain before and behind it on record. -/
def recorded
    (sharing : Sharing α) : Sharing α where
  start chain :=
    let whole := sharing.start chain
    { whole with
      calls := whole.calls ++ [⟨chain, whole.chain⟩] }

/-
  Inside a document, at a depth, and out of it again however
  this ends.  What cannot be entered is not left either.
-/
def entering
    (path : CanonicalPath)
    (inner : Nat → Sharing α) : Sharing α where
  start chain :=
    match chain.enter path with
    | (.error error, chain) =>
        { run := Run.fail error
          chains := [chain]
          chain := chain }
    | (.ok (), entered) =>
        let whole :=
          (inner entered.stack.length).start entered
        { whole with
          chains :=
            entered :: whole.chains ++ [whole.chain.leave]
          chain := whole.chain.leave }

end Sharing

/- Merge what references name, sharing the chain. -/
def mergeIncludesSharing
    (config : Config)
    (path : CanonicalPath)
    (resolve : CanonicalPath → Sharing Value) :
    List String → Value → Sharing Value
  | [], merged => return merged
  | reference :: rest, merged => do
      let included ←
        (resolve (resolveInclude path reference)).within
          path
      let merged ←
        .ofRun (mergeFor config path merged included)
      mergeIncludesSharing config path resolve rest merged

/-
  Put together what was loaded, sharing the chain.  Without
  a document there is nothing to put together.
-/
def assembleSharing
    (config : Config)
    (path : CanonicalPath)
    (resolve : CanonicalPath → Sharing Value) :
    Option Value → Sharing Value
  | none => return .empty
  | some document => do
      let parts := config.split document
      if !parts.wellFormed then
        .ofRun (Run.step (.warned (.malformedIncludes path)))
      let merged ←
        mergeIncludesSharing config path resolve
          parts.references .empty
      .ofRun (mergeFor config path merged parts.content)

/-
  Resolve a document below the chain, with at most so many
  documents nested.
-/
def resolveSharing
    (source : Source)
    (config : Config) :
    Nat → CanonicalPath → Bool → Sharing Value
  | 0, path, _ =>
      (Sharing.ofRun (Run.fail (.tooDeep path))).recorded
  | bound + 1, path, isRoot =>
      Sharing.recorded <| Sharing.entering path fun depth => do
        .ofRun (Run.step (.entered path depth))
        let loaded ←
          .ofRun (loadDocument source config path isRoot)
        let resolve (included : CanonicalPath) :=
          resolveSharing source config bound included false
        assembleSharing config path resolve loaded

end Transclusion

------------------------------------------------------------
-- Chains of Their Own
------------------------------------------------------------

namespace Transclusion

variable {α β : Type}

/-
  A traversal from a chain that runs in some way: the chain
  is the same in the end, so it is behind every call, and
  all chains on the way are tidy.
-/
structure Traversal.Restores
    (whole : Traversal α)
    (chain : ActiveChain)
    (run : Run α) : Prop where
  run : whole.run = run
  chain : whole.chain = chain
  calls : ∀ call ∈ whole.calls, call.after = call.before
  chains : ∀ other ∈ whole.chains, other.IsTidy

/-
  From every tidy chain, what shares the chain runs like
  what is given the stack as its own.
-/
def Sharing.Refines
    (sharing : Sharing α)
    (alone : List CanonicalPath → Run α) : Prop :=
  ∀ chain : ActiveChain, chain.IsTidy →
    (sharing.start chain).Restores chain (alone chain.stack)

namespace Sharing.Refines

variable {sharing : Sharing α}
variable {alone : List CanonicalPath → Run α}
variable {path : CanonicalPath}

/- What does not look at the chain leaves it alone. -/
theorem ofRun
    (run : Run α) :
    (Sharing.ofRun run).Refines fun _ => run := by
  intro chain _hTidy
  exact ⟨rfl, rfl, by simp [Sharing.ofRun],
    by simp [Sharing.ofRun]⟩

/- One after the other, each of them as if alone. -/
theorem bind
    {next : α → Sharing β}
    {nextAlone : α → List CanonicalPath → Run β}
    (hFirst : sharing.Refines alone)
    (hNext : ∀ a, (next a).Refines (nextAlone a)) :
    (sharing >>= next).Refines fun stack =>
      alone stack >>= fun a => nextAlone a stack := by
  intro chain hTidy
  have hBefore := hFirst chain hTidy
  change ((sharing.andThen next).start chain).Restores _ _
  cases hResult : (sharing.start chain).run.result with
  | error error =>
      simp only [Sharing.andThen, hResult]
      refine ⟨?_, hBefore.chain, hBefore.calls,
        hBefore.chains⟩
      rw [hBefore.run] at hResult ⊢
      rw [Run.bind_of_error hResult]
  | ok a =>
      simp only [Sharing.andThen, hResult]
      rw [hBefore.chain]
      have hAfter := hNext a chain hTidy
      refine ⟨?_, hAfter.chain, ?_, ?_⟩
      · rw [hBefore.run] at hResult ⊢
        rw [hAfter.run, Run.bind_of_ok hResult,
          Run.bind_of_ok hResult]
      · intro call hCall
        rcases List.mem_append.mp hCall with hCall | hCall
        · exact hBefore.calls call hCall
        · exact hAfter.calls call hCall
      · intro other hOther
        rcases List.mem_append.mp hOther with
          hOther | hOther
        · exact hBefore.chains other hOther
        · exact hAfter.chains other hOther

/- Inside another document, as if alone. -/
theorem within
    (hInner : sharing.Refines alone) :
    (sharing.within path).Refines fun stack =>
      (alone stack).within path := by
  intro chain hTidy
  have hWhole := hInner chain hTidy
  refine ⟨?_, hWhole.chain, hWhole.calls, hWhole.chains⟩
  simp only [Sharing.within, hWhole.run]

/- A call is recorded with one chain on both sides. -/
theorem recorded
    (hInner : sharing.Refines alone) :
    sharing.recorded.Refines alone := by
  intro chain hTidy
  have hWhole := hInner chain hTidy
  refine ⟨hWhole.run, hWhole.chain, ?_, hWhole.chains⟩
  intro call hCall
  rcases List.mem_append.mp hCall with hInside | hLast
  · exact hWhole.calls call hInside
  · rw [List.mem_singleton] at hLast
    rw [hLast]
    exact hWhole.chain

/-
  A document that is entered is left again, so the chain is
  back to what it was.
-/
theorem entering
    {inner : Nat → Sharing α}
    {innerAlone : Nat → List CanonicalPath → Run α}
    (hInner :
      ∀ depth, (inner depth).Refines (innerAlone depth)) :
    (Sharing.entering path inner).Refines fun stack =>
      if stack.contains path then
        Run.fail (.circular path (stack ++ [path]))
      else
        innerAlone (stack ++ [path]).length
          (stack ++ [path]) := by
  intro chain hTidy
  have hEntered := hTidy.enter path
  by_cases hMem : path ∈ chain.members
  · have hStack : path ∈ chain.stack :=
      hTidy.mem_members_iff.mp hMem
    simp only [Sharing.entering,
      ActiveChain.enter_of_mem hMem]
    refine ⟨?_, rfl, by simp, by simpa using hTidy⟩
    simp [hStack]
  · have hStack : path ∉ chain.stack :=
      mt hTidy.mem_members_iff.mpr hMem
    have hLeave := ActiveChain.leave_enter hMem
    have hStart := ActiveChain.enter_of_not_mem hMem
    rw [hStart] at hEntered hLeave
    have hWhole :=
      hInner (chain.stack ++ [path]).length _ hEntered
    simp only [Sharing.entering, hStart]
    rw [hWhole.chain, hLeave]
    refine ⟨?_, rfl, hWhole.calls, ?_⟩
    · simp only [hWhole.run, List.contains_iff_mem, hStack,
        if_false]
    · intro other hOther
      rcases List.mem_append.mp hOther with hOther | hLast
      · rcases List.mem_cons.mp hOther with rfl | hInside
        · exact hEntered
        · exact hWhole.chains other hInside
      · rw [List.mem_singleton] at hLast
        rw [hLast]
        exact hTidy

end Sharing.Refines

end Transclusion

------------------------------------------------------------
-- Documents
------------------------------------------------------------

namespace Transclusion

variable {source : Source}
variable {config : Config}
variable {path : CanonicalPath}

/-
  Includes are merged as if each of them were given the
  stack of the document as its own.
-/
theorem mergeIncludesSharing_refines
    (config : Config)
    (path : CanonicalPath)
    {resolve : CanonicalPath → Sharing Value}
    {alone : List CanonicalPath → CanonicalPath → Run Value}
    (hResolve :
      ∀ included,
        (resolve included).Refines fun stack =>
          alone stack included)
    (references : List String)
    (merged : Value) :
    (mergeIncludesSharing config path resolve references
        merged).Refines fun stack =>
      mergeIncludes config path (alone stack) references
        merged := by
  induction references generalizing merged with
  | nil => exact .ofRun (pure merged)
  | cons reference rest ih =>
      unfold mergeIncludesSharing mergeIncludes
      exact
        (hResolve _).within.bind fun included =>
          (Sharing.Refines.ofRun _).bind ih

/-
  Put together what was loaded, where each include gets the
  stack of the document as its own.
-/
def assembleAlone
    (config : Config)
    (path : CanonicalPath)
    (resolve : CanonicalPath → Run Value) :
    Option Value → Run Value
  | none => return .empty
  | some document => do
      let parts := config.split document
      if !parts.wellFormed then
        Run.step (.warned (.malformedIncludes path))
      let merged ←
        mergeIncludes config path resolve parts.references
          .empty
      mergeFor config path merged parts.content

/- A document is put together as if includes ran alone. -/
theorem assembleSharing_refines
    {resolve : CanonicalPath → Sharing Value}
    {alone : List CanonicalPath → CanonicalPath → Run Value}
    (hResolve :
      ∀ included,
        (resolve included).Refines fun stack =>
          alone stack included)
    (loaded : Option Value) :
    (assembleSharing config path resolve loaded).Refines
      fun stack =>
        assembleAlone config path (alone stack) loaded := by
  cases loaded with
  | none => exact .ofRun (pure Value.empty)
  | some document =>
      have hIncludes :=
        mergeIncludesSharing_refines config path hResolve
          (config.split document).references .empty
      have hMerged :=
        hIncludes.bind fun merged =>
          Sharing.Refines.ofRun
            (mergeFor config path merged
              (config.split document).content)
      unfold assembleSharing assembleAlone
      cases hWellFormed :
          (config.split document).wellFormed with
      | true => simpa [hWellFormed] using hMerged
      | false =>
          simp only [hWellFormed, Bool.not_false, if_true]
          exact
            (Sharing.Refines.ofRun _).bind fun _ => hMerged

/-
  A document is resolved as if each call were given the
  stack above it as its own.
-/
theorem resolveSharing_refines
    (source : Source)
    (config : Config)
    (bound : Nat)
    (path : CanonicalPath)
    (isRoot : Bool) :
    (resolveSharing source config bound path
        isRoot).Refines fun stack =>
      resolveDocument source config bound stack path
        isRoot := by
  induction bound generalizing path isRoot with
  | zero =>
      unfold resolveSharing resolveDocument
      exact (Sharing.Refines.ofRun _).recorded
  | succ bound ih =>
      have hInner :
          ∀ depth,
            (Sharing.ofRun
                  (Run.step (.entered path depth)) >>=
                fun _ =>
                  Sharing.ofRun
                      (loadDocument source config path
                        isRoot) >>=
                    assembleSharing config path
                      fun included =>
                        resolveSharing source config bound
                          included false).Refines
              fun stack =>
                Run.step (.entered path depth) >>= fun _ =>
                  loadDocument source config path isRoot >>=
                    assembleAlone config path
                      fun included =>
                        resolveDocument source config bound
                          stack included false := by
        intro depth
        refine (Sharing.Refines.ofRun _).bind fun _ => ?_
        refine (Sharing.Refines.ofRun _).bind ?_
        apply assembleSharing_refines
        intro included
        exact ih included false
      exact (Sharing.Refines.entering hInner).recorded

end Transclusion

------------------------------------------------------------
-- Resolvers
------------------------------------------------------------

namespace Transclusion

namespace Resolver

/-
  A resolver whose calls share one chain runs as if each had
  a copy of its own.  No chain on the way holds a document
  twice or differs from its set, what cannot be entered
  changes nothing, every call leaves the chain as it was,
  and nothing is left behind in the end.
-/
theorem run_sharing
    (resolver : Resolver)
    (root : CanonicalPath) :
    let whole :=
      (resolveSharing resolver.source resolver.config
        resolver.bound root true).start {}
    (∀ chain ∈ whole.chains,
        chain.stack.Nodup ∧
          chain.members = chain.stack.toFinset) ∧
      (∀ chain : ActiveChain, ∀ path error,
        (chain.enter path).1 = .error error →
          (chain.enter path).2 = chain) ∧
      (∀ call ∈ whole.calls, call.after = call.before) ∧
      whole.chain = {} ∧
      whole.run = resolver.run root := by
  intro whole
  have hWhole :
      whole.Restores {} (resolver.run root) :=
    resolveSharing_refines _ _ _ _ _ {} .empty
  refine ⟨?_, ?_, hWhole.calls, hWhole.chain, hWhole.run⟩
  · intro chain hChain
    have hTidy := hWhole.chains chain hChain
    exact ⟨hTidy.nodup, hTidy.members⟩
  · intro chain path error hError
    exact ActiveChain.enter_eq_self_of_error hError

end Resolver

end Transclusion
