import Mathlib.Data.List.Basic

/-
  Octets that are written by way of a buffer.

  Key definitions include:
    * `Transclusion.Sink`
    * `Transclusion.BufferedWriter`
    * `Transclusion.BufferedWriter.writeAll`
    * `Transclusion.Sink.writeBuffered`

  Key theorems include:
    * `Transclusion.BufferedWriter.Accounts.writeAll`
    * `Transclusion.Sink.exists_took_writeBuffered`
    * `Transclusion.Sink.writeBuffered_of_fits`
    * `Transclusion.Sink.writeBuffered_of_full`

  What is written is either in the file or in the buffer.
  The buffer is handed over at the end, and whether the file
  takes it is not looked at.  So all that can be lost behind
  a writing that ends well is what fits the buffer.
-/

------------------------------------------------------------
-- Sinks
------------------------------------------------------------

namespace Transclusion

/-
  Where octets go: what was taken so far, and for how much
  more there is room, if that has a limit.
-/
structure Sink where
  room : Option Nat := none
  taken : List UInt8 := []
  deriving DecidableEq

namespace Sink

/- Whether there is room for so many octets. -/
def Fits
    (sink : Sink)
    (count : Nat) : Prop :=
  ∀ room ∈ sink.room, count ≤ room

/- How many octets out of so many there is room for. -/
def fitting
    (sink : Sink)
    (count : Nat) : Nat :=
  match sink.room with
  | none => count
  | some room => min room count

/-
  Take octets, as many as there is room for, and tell
  whether these are all.
-/
def accept
    (sink : Sink)
    (octets : List UInt8) : Sink × Bool :=
  let count := sink.fitting octets.length
  ({ room := sink.room.map (· - count)
     taken := sink.taken ++ octets.take count },
    count == octets.length)

/- A sink that has taken these octets and no others since. -/
structure Took
    (sink : Sink)
    (octets : List UInt8)
    (sink' : Sink) : Prop where
  fits : sink.Fits octets.length
  room : sink'.room = sink.room.map (· - octets.length)
  taken : sink'.taken = sink.taken ++ octets

variable {sink sink' sink'' : Sink}
variable {octets more : List UInt8}

/- No octets are taken without a change. -/
theorem took_nil
    (sink : Sink) :
    sink.Took [] sink where
  fits := fun _ _ => Nat.zero_le _
  room := by simp
  taken := by simp

/- Octets are taken behind others. -/
theorem Took.append
    (hTook : sink.Took octets sink')
    (hMore : sink'.Took more sink'') :
    sink.Took (octets ++ more) sink'' where
  fits := by
    intro room hRoom
    have hFits := hTook.fits room hRoom
    have hRest :=
      hMore.fits (room - octets.length) (by
        rw [hTook.room, Option.mem_def.mp hRoom]
        rfl)
    rw [List.length_append]
    omega
  room := by
    rw [hMore.room, hTook.room, Option.map_map,
      List.length_append]
    congr 1
    funext room
    exact Nat.sub_sub _ _ _
  taken := by
    rw [hMore.taken, hTook.taken, List.append_assoc]

/- Where octets were taken, there was room for no more. -/
theorem Took.fits_iff
    (hTook : sink.Took octets sink')
    (count : Nat) :
    sink'.Fits count ↔ sink.Fits (octets.length + count) := by
  have hFits := hTook.fits
  unfold Fits at hFits ⊢
  rw [hTook.room]
  cases hRoom : sink.room with
  | none => simp
  | some room =>
      have hEnough := hFits room hRoom
      simp only [Option.map_some, Option.mem_def,
        Option.some.injEq, forall_eq']
      omega

/- No more octets fit than there are. -/
theorem fitting_le
    (sink : Sink)
    (count : Nat) :
    sink.fitting count ≤ count := by
  unfold fitting
  split
  · exact Nat.le_refl _
  · exact Nat.min_le_right _ _

/- Octets fit if there is room for all of them. -/
theorem le_fitting_iff
    (sink : Sink)
    (count : Nat) :
    count ≤ sink.fitting count ↔ sink.Fits count := by
  unfold fitting Fits
  cases sink.room with
  | none => simp
  | some room =>
      simp only [Option.mem_def, Option.some.injEq,
        forall_eq']
      omega

/- The octets that fit are taken, from the first one on. -/
theorem took_accept
    (sink : Sink)
    (octets : List UInt8) :
    sink.Took
      (octets.take (sink.fitting octets.length))
      (sink.accept octets).1 := by
  have hLength :
      (octets.take (sink.fitting octets.length)).length =
        sink.fitting octets.length :=
    List.length_take_of_le (sink.fitting_le _)
  refine ⟨?_, ?_, rfl⟩
  · intro room hRoom
    rw [hLength]
    unfold fitting
    rw [Option.mem_def.mp hRoom]
    exact Nat.min_le_left _ _
  · rw [hLength]
    rfl

/- All octets are taken if there is room for them. -/
theorem accept_eq_true_iff
    (sink : Sink)
    (octets : List UInt8) :
    (sink.accept octets).2 = true ↔
      sink.Fits octets.length := by
  have hLe := sink.fitting_le octets.length
  rw [← le_fitting_iff]
  simp only [accept, beq_iff_eq]
  omega

end Sink

end Transclusion

------------------------------------------------------------
-- Buffers
------------------------------------------------------------

namespace Transclusion

/- A sink with octets in front of it that wait. -/
structure BufferedWriter where
  sink : Sink
  held : List UInt8 := []

namespace BufferedWriter

/- Hand over what waits, and tell whether all was taken. -/
def flush
    (writer : BufferedWriter) : BufferedWriter × Bool :=
  let count := writer.sink.fitting writer.held.length
  let (sink, all) := writer.sink.accept writer.held
  (⟨sink, writer.held.drop count⟩, all)

/- Let further octets wait. -/
def hold
    (writer : BufferedWriter)
    (octets : List UInt8) : BufferedWriter :=
  { writer with held := writer.held ++ octets }

/- Make space for so many octets, if there is too little. -/
def makeSpace
    (capacity : Nat)
    (writer : BufferedWriter)
    (count : Nat) : BufferedWriter × Bool :=
  if capacity - writer.held.length < count then
    writer.flush
  else (writer, true)

/-
  Let octets wait behind others for which they leave space,
  or hand them over if no buffer could hold them.
-/
def store
    (capacity : Nat)
    (writer : BufferedWriter)
    (octets : List UInt8) : BufferedWriter × Bool :=
  if octets.length < capacity then
    (writer.hold octets, true)
  else
    let (sink, all) := writer.sink.accept octets
    ({ writer with sink := sink }, all)

/-
  Write octets by way of a buffer of a capacity, and tell
  whether what was handed over was taken.
-/
def writeAll
    (capacity : Nat)
    (writer : BufferedWriter)
    (octets : List UInt8) : BufferedWriter × Bool :=
  if octets.length < capacity - writer.held.length then
    (writer.hold octets, true)
  else
    match writer.makeSpace capacity octets.length with
    | (writer, true) => writer.store capacity octets
    | (writer, false) => (writer, false)

/- Write pieces one after the other, up to a failure. -/
def writePieces
    (capacity : Nat)
    (writer : BufferedWriter) :
    List (List UInt8) → BufferedWriter × Bool
  | [] => (writer, true)
  | piece :: rest =>
      match writer.writeAll capacity piece with
      | (writer, true) => writer.writePieces capacity rest
      | (writer, false) => (writer, false)

end BufferedWriter

/-
  Write pieces by way of a buffer.  The end of the writing
  hands over what waits and does not look at what becomes of
  it.
-/
def Sink.writeBuffered
    (sink : Sink)
    (capacity : Nat)
    (pieces : List (List UInt8)) : Sink × Bool :=
  let (writer, written) :=
    BufferedWriter.writePieces capacity ⟨sink, []⟩ pieces
  (writer.flush.1.sink, written)

end Transclusion

------------------------------------------------------------
-- Octets Accounted for
------------------------------------------------------------

namespace Transclusion

namespace BufferedWriter

variable {capacity : Nat}
variable {start : Sink}
variable {writer : BufferedWriter}
variable {written octets : List UInt8}

/-
  What was written since a start has been taken or waits,
  and no more waits than there is space for.
-/
structure Accounts
    (capacity : Nat)
    (start : Sink)
    (written : List UInt8)
    (writer : BufferedWriter) : Prop where
  kept :
    ∃ kept,
      kept ++ writer.held = written ∧
        start.Took kept writer.sink
  space : writer.held.length ≤ capacity

/- Nothing is accounted for at the start. -/
theorem accounts_nil
    (capacity : Nat)
    (start : Sink) :
    Accounts capacity start [] ⟨start, []⟩ where
  kept := ⟨[], rfl, start.took_nil⟩
  space := Nat.zero_le _

/- Octets that wait are accounted for. -/
theorem Accounts.hold
    (hAccounts : Accounts capacity start written writer)
    (hSpace :
      writer.held.length + octets.length ≤ capacity) :
    Accounts capacity start (written ++ octets)
      (writer.hold octets) := by
  rcases hAccounts.kept with ⟨kept, rfl, hTook⟩
  refine ⟨⟨kept, ?_, hTook⟩, ?_⟩
  · exact (List.append_assoc _ _ _).symm
  · simpa [BufferedWriter.hold] using hSpace

/- Where there is room for what waits and for more. -/
theorem Accounts.fits_iff
    (hAccounts : Accounts capacity start written writer)
    (count : Nat) :
    start.Fits (written.length + count) ↔
      writer.sink.Fits (writer.held.length + count) := by
  rcases hAccounts.kept with ⟨kept, rfl, hTook⟩
  rw [hTook.fits_iff, List.length_append, Nat.add_assoc]

/- A flush is told to be done if there is room. -/
theorem flush_eq_true_iff
    (writer : BufferedWriter) :
    writer.flush.2 = true ↔
      writer.sink.Fits writer.held.length :=
  writer.sink.accept_eq_true_iff writer.held

/- A flush leaves what there is no room for. -/
theorem Accounts.flush
    (hAccounts : Accounts capacity start written writer) :
    Accounts capacity start written writer.flush.1 := by
  rcases hAccounts.kept with ⟨kept, hKept, hTook⟩
  have hAccept := writer.sink.took_accept writer.held
  refine ⟨⟨_, ?_, hTook.append hAccept⟩, ?_⟩
  · rw [← hKept, List.append_assoc]
    exact
      congrArg (kept ++ ·) (List.take_append_drop _ _)
  · have hSpace := hAccounts.space
    change (writer.held.drop _).length ≤ capacity
    rw [List.length_drop]
    omega

/- A flush that is done leaves nothing waiting. -/
theorem held_flush_eq_nil_iff
    (writer : BufferedWriter) :
    writer.flush.1.held = [] ↔
      writer.sink.Fits writer.held.length := by
  rw [← Sink.le_fitting_iff]
  exact List.drop_eq_nil_iff

/- Octets that are taken at once are accounted for. -/
theorem Accounts.accept
    (hAccounts : Accounts capacity start written writer)
    (hNone : writer.held = [])
    (hAll : (writer.sink.accept octets).2 = true) :
    Accounts capacity start (written ++ octets)
      { writer with sink := (writer.sink.accept octets).1 } := by
  rcases hAccounts.kept with ⟨kept, hKept, hTook⟩
  rw [hNone, List.append_nil] at hKept
  subst hKept
  have hAccept := writer.sink.took_accept octets
  have hLe : octets.length ≤ writer.sink.fitting octets.length := by
    rw [Sink.le_fitting_iff, ← Sink.accept_eq_true_iff]
    exact hAll
  rw [List.take_of_length_le hLe] at hAccept
  refine ⟨⟨kept ++ octets, ?_, hTook.append hAccept⟩, ?_⟩
  · rw [hNone, List.append_nil]
  · rw [hNone]
    exact Nat.zero_le _

/-
  Octets are stored where nothing waits, or where what waits
  leaves just the space for them.
-/
theorem Accounts.store
    (hAccounts : Accounts capacity start written writer)
    (hSpace :
      writer.held = [] ∨
        writer.held.length + octets.length = capacity) :
    ((writer.store capacity octets).2 = true →
        Accounts capacity start (written ++ octets)
          (writer.store capacity octets).1) ∧
      (start.Fits (written.length + octets.length) →
        (writer.store capacity octets).2 = true) := by
  unfold BufferedWriter.store
  by_cases hSmall : octets.length < capacity
  · rw [if_pos hSmall]
    refine ⟨fun _ => hAccounts.hold ?_, fun _ => rfl⟩
    rcases hSpace with hNone | hJust
    · rw [hNone, List.length_nil]
      omega
    · exact Nat.le_of_eq hJust
  · rw [if_neg hSmall]
    have hNone : writer.held = [] := by
      rcases hSpace with hNone | hJust
      · exact hNone
      · rw [← List.length_eq_zero_iff]
        omega
    refine ⟨hAccounts.accept hNone, ?_⟩
    intro hFits
    rw [hAccounts.fits_iff, hNone, List.length_nil,
      Nat.zero_add] at hFits
    exact
      (writer.sink.accept_eq_true_iff octets).mpr hFits

/-
  Space is made unless there is too little room, and what is
  written stays accounted for.
-/
theorem Accounts.makeSpace
    (hAccounts : Accounts capacity start written writer)
    (hMore : capacity - writer.held.length ≤ octets.length) :
    let made := writer.makeSpace capacity octets.length
    (made.2 = true →
        Accounts capacity start written made.1 ∧
          (made.1.held = [] ∨
            made.1.held.length + octets.length =
              capacity)) ∧
      (start.Fits (written.length + octets.length) →
        made.2 = true) := by
  intro made
  have hSpace := hAccounts.space
  by_cases hTight :
      capacity - writer.held.length < octets.length
  · have hMade : made = writer.flush := if_pos hTight
    rw [hMade, flush_eq_true_iff, held_flush_eq_nil_iff]
    refine ⟨fun hFits => ⟨hAccounts.flush, .inl hFits⟩, ?_⟩
    intro hFits room hRoom
    rw [hAccounts.fits_iff] at hFits
    have hEnough := hFits room hRoom
    omega
  · have hMade : made = (writer, true) := if_neg hTight
    rw [hMade]
    refine ⟨fun _ => ⟨hAccounts, .inr ?_⟩, fun _ => rfl⟩
    change writer.held.length + octets.length = capacity
    omega

/-
  A writing that is told to be done is accounted for, and it
  is told so if there is room for everything.
-/
theorem Accounts.writeAll
    (hAccounts : Accounts capacity start written writer)
    (octets : List UInt8) :
    ((writer.writeAll capacity octets).2 = true →
        Accounts capacity start (written ++ octets)
          (writer.writeAll capacity octets).1) ∧
      (start.Fits (written.length + octets.length) →
        (writer.writeAll capacity octets).2 = true) := by
  have hSpace := hAccounts.space
  unfold BufferedWriter.writeAll
  by_cases hSmall :
      octets.length < capacity - writer.held.length
  · rw [if_pos hSmall]
    exact
      ⟨fun _ => hAccounts.hold (by omega), fun _ => rfl⟩
  · rw [if_neg hSmall]
    rcases hAccounts.makeSpace (Nat.not_lt.mp hSmall) with
      ⟨hDone, hMade⟩
    rcases hResult :
        writer.makeSpace capacity octets.length with
      ⟨made, _ | _⟩
    · rw [hResult] at hMade
      refine ⟨fun hNever => (by cases hNever), ?_⟩
      intro hFits
      cases hMade hFits
    · rw [hResult] at hDone
      rcases hDone rfl with ⟨hMade, hLeft⟩
      exact hMade.store hLeft

/- The same holds for pieces in a row. -/
theorem Accounts.writePieces
    (hAccounts : Accounts capacity start written writer)
    (pieces : List (List UInt8)) :
    ((writer.writePieces capacity pieces).2 = true →
        Accounts capacity start (written ++ pieces.flatten)
          (writer.writePieces capacity pieces).1) ∧
      (start.Fits (written.length + pieces.flatten.length) →
        (writer.writePieces capacity pieces).2 = true) := by
  induction pieces generalizing writer written with
  | nil =>
      rw [BufferedWriter.writePieces, List.flatten_nil,
        List.append_nil]
      exact ⟨fun _ => hAccounts, fun _ => rfl⟩
  | cons piece rest ih =>
      rw [BufferedWriter.writePieces]
      rcases hAccounts.writeAll piece with ⟨hDone, hFits⟩
      rcases hResult : writer.writeAll capacity piece with
        ⟨after, _ | _⟩
      · rw [hResult] at hFits
        refine ⟨fun hNever => (by cases hNever), ?_⟩
        intro hAll
        cases hFits (fun room hRoom => by
          have hEnough := hAll room hRoom
          rw [List.flatten_cons, List.length_append]
            at hEnough
          omega)
      · rw [hResult] at hDone
        have hRest := ih (hDone rfl)
        rw [List.append_assoc, List.length_append,
          Nat.add_assoc] at hRest
        rw [List.flatten_cons, List.length_append]
        exact hRest

end BufferedWriter

namespace Sink

variable {capacity : Nat}

/-
  Behind a writing that ends well, all octets are taken that
  there is room for.  What is lost would fit the buffer.
-/
theorem exists_took_writeBuffered
    (sink : Sink)
    {pieces : List (List UInt8)}
    (hDone :
      (sink.writeBuffered capacity pieces).2 = true) :
    ∃ kept lost,
      kept ++ lost = pieces.flatten ∧
        sink.Took kept
            (sink.writeBuffered capacity pieces).1 ∧
          lost.length ≤ capacity ∧
            (lost = [] ↔
              sink.Fits pieces.flatten.length) := by
  have hStart :=
    BufferedWriter.accounts_nil capacity sink
  have hAccounts := (hStart.writePieces pieces).1 hDone
  rw [List.nil_append] at hAccounts
  rcases hAccounts.flush.kept with ⟨kept, hKept, hTook⟩
  refine
    ⟨kept, _, hKept, hTook, hAccounts.flush.space, ?_⟩
  rw [BufferedWriter.held_flush_eq_nil_iff]
  exact (hAccounts.fits_iff 0).symm

/- With room for everything, everything is taken. -/
theorem writeBuffered_of_fits
    (sink : Sink)
    {pieces : List (List UInt8)}
    (hFits : sink.Fits pieces.flatten.length) :
    (sink.writeBuffered capacity pieces).2 = true ∧
      sink.Took pieces.flatten
        (sink.writeBuffered capacity pieces).1 := by
  have hStart :=
    BufferedWriter.accounts_nil capacity sink
  have hDone :
      (sink.writeBuffered capacity pieces).2 = true := by
    apply (hStart.writePieces pieces).2
    rwa [List.length_nil, Nat.zero_add]
  refine ⟨hDone, ?_⟩
  rcases sink.exists_took_writeBuffered hDone with
    ⟨kept, lost, hKept, hTook, _hSpace, hLost⟩
  rw [hLost.mpr hFits, List.append_nil] at hKept
  rwa [← hKept]

/- Without any room, only what fits the buffer is written. -/
theorem writeAll_of_full
    {sink : Sink}
    (hFull : sink.room = some 0)
    (hCapacity : 0 < capacity)
    (octets : List UInt8) :
    ((BufferedWriter.writeAll capacity ⟨sink, []⟩
        octets).2 = true ↔
      octets.length < capacity) := by
  unfold BufferedWriter.writeAll
  by_cases hSmall : octets.length < capacity
  · rw [if_pos (by simpa using hSmall)]
    exact iff_of_true rfl hSmall
  · rw [if_neg (by simpa using hSmall)]
    have hNever (made : Sink) (hMade : made.room = some 0) :
        (BufferedWriter.store capacity ⟨made, []⟩
          octets).2 = false := by
      unfold BufferedWriter.store
      rw [if_neg hSmall, ← Bool.not_eq_true]
      intro hAll
      have hFits :=
        (made.accept_eq_true_iff octets).mp hAll 0 hMade
      omega
    have hMade :
        BufferedWriter.makeSpace capacity ⟨sink, []⟩
            octets.length =
          (⟨sink, []⟩, true) := by
      unfold BufferedWriter.makeSpace
      split
      · rcases sink with ⟨room, taken⟩
        cases hFull
        simp [BufferedWriter.flush, accept, fitting]
      · rfl
    rw [hMade]
    simp only [hNever sink hFull, Bool.false_eq_true,
      false_iff]
    exact hSmall

/-
  Without any room, the writing ends well if the pieces fit
  the buffer together, provided that all pieces but the last
  one would fill it.
-/
theorem writeBuffered_of_full
    {sink : Sink}
    (hFull : sink.room = some 0)
    (hCapacity : 0 < capacity)
    {pieces : List (List UInt8)}
    (hPieces :
      ∀ piece ∈ pieces.dropLast, capacity ≤ piece.length) :
    (sink.writeBuffered capacity pieces).2 = true ↔
      pieces.flatten.length < capacity := by
  change
    (BufferedWriter.writePieces capacity ⟨sink, []⟩
        pieces).2 = true ↔
      _
  cases pieces with
  | nil => exact iff_of_true rfl hCapacity
  | cons piece rest =>
      have hFirst := writeAll_of_full hFull hCapacity piece
      rw [BufferedWriter.writePieces]
      rcases hResult :
          BufferedWriter.writeAll capacity ⟨sink, []⟩
            piece with
        ⟨after, _ | _⟩
      · rw [hResult] at hFirst
        have hLarge : ¬ piece.length < capacity := by
          rw [← hFirst]
          exact Bool.false_ne_true
        refine iff_of_false Bool.false_ne_true ?_
        rw [List.flatten_cons, List.length_append]
        omega
      · rw [hResult] at hFirst
        have hSmall := hFirst.mp rfl
        cases rest with
        | nil =>
            refine iff_of_true rfl ?_
            simpa using hSmall
        | cons next rest =>
            have hLarge :=
              hPieces piece List.mem_cons_self
            omega

end Sink

end Transclusion
