import Transclusion.Config.Stored
import Transclusion.Proofs.Disk.Buffered
import Transclusion.Proofs.Disk.Written
import Transclusion.Proofs.Document.YamlText

/-
  Configurations that are saved and loaded again.

  Key theorems include:
    * `Transclusion.Config.ofText_text`
    * `Transclusion.Config.not_forall_accept_of_save`
    * `Transclusion.Config.save_accounts`

  Every configuration is read again from its text.  A save
  that is reported as done has written the text, unless the
  text fits the buffer: then it may be lost when the buffer
  is handed over.
-/

------------------------------------------------------------
-- Texts of Configurations
------------------------------------------------------------

namespace Transclusion

namespace Config

/- The value of a configuration stands for it. -/
theorem ofValue_toValue
    (config : Config) :
    ofValue config.toValue = .ok config := by
  rcases config with
    ⟨key, lenient, keyPolicy, arrayPolicy, recursive⟩
  cases keyPolicy <;> cases arrayPolicy <;> rfl

/- A configuration is read again from its text. -/
theorem ofText_text
    (config : Config) :
    ofText config.text = .ok config := by
  have hNesting :
      config.toValue.nesting ≤ Yaml.Node.maxDepth := by
    have hTwo : config.toValue.nesting = 2 := rfl
    rw [hTwo]
    decide
  have hKeys : config.toValue.hasDistinctKeys = true := rfl
  have hParsed :
      parseText config.text = .ok config.toValue :=
    parseText_yaml_of_nesting hNesting hKeys
  have hValue := config.ofValue_toValue
  unfold ofText
  rw [hParsed]
  change (ofValue config.toValue).mapError _ = _
  rw [hValue]
  rfl

/- The text of a configuration is not empty. -/
theorem isEmpty_text
    (config : Config) :
    config.text.toUTF8.isEmpty = false := by
  have hText : config.text ≠ "" := by
    intro hEmpty
    have hRoot := Yaml.Block.root_ne_nil config.toValue
    rw [← String.toList_eq_nil_iff] at hEmpty
    unfold text Value.yaml at hEmpty
    rw [String.toList_ofList] at hEmpty
    exact hRoot hEmpty
  simpa [ByteArray.isEmpty] using hText

end Config

end Transclusion

------------------------------------------------------------
-- Saves That Lose the Text
------------------------------------------------------------

namespace Transclusion

namespace Config

/- A disk with a device that refuses all data. -/
def refusing : Disk where
  tree := ⟨[(["full"], .device false)]⟩

/- The device can be opened. -/
theorem create_refusing :
    refusing.create "/full" =
      .ok (refusing, .device false) := by
  have hNull : "/full".contains '\x00' = false := by
    cbv
  have hWalk :
      refusing.walk .create "/full" =
        .ok (.found ["full"] (.device false) false) := by
    rfl
  unfold Disk.create
  rw [hNull, if_neg (by decide), hWalk]

/- A device that refuses data takes no configuration. -/
theorem accept_refusing
    (config : Config)
    (disk : Disk) :
    disk.accept (.device false) config.text.toUTF8 =
      .error .noSpace := by
  simp only [Disk.accept, Bool.false_or, isEmpty_text,
    Bool.false_eq_true, if_false]

/-
  A save can be reported as done although nothing of the
  text was taken.
-/
theorem not_forall_accept_of_save :
    ¬ ∀ (config : Config) (disk disk' : Disk)
        (path : String),
      config.save disk path = (disk', .ok ()) →
        ∃ opened target,
          disk.create path = .ok (opened, target) ∧
            opened.accept target config.text.toUTF8 =
              .ok disk' := by
  intro hAll
  have hSmall :
      ({} : Config).text.toUTF8.size < bufferSize := by
    decide +kernel
  have hSave :
      ({} : Config).save refusing "/full" =
        (refusing, .ok ()) := by
    unfold save
    rw [create_refusing]
    simp only [accept_refusing, if_pos hSmall]
  rcases hAll _ _ _ _ hSave with
    ⟨opened, target, hCreate, hAccept⟩
  rw [create_refusing] at hCreate
  cases hCreate
  rw [accept_refusing] at hAccept
  cases hAccept

end Config

end Transclusion

------------------------------------------------------------
-- Saves
------------------------------------------------------------

namespace Transclusion

namespace Config

variable {disk disk' opened : Disk}
variable {path : String}

/- A text is taken by all but a device that refuses data. -/
theorem accept_cases
    (config : Config)
    (opened : Disk)
    (target : Target) :
    (∃ disk',
        opened.accept target config.text.toUTF8 =
          .ok disk') ∨
      target = .device false := by
  cases target with
  | file names => exact .inl ⟨_, rfl⟩
  | device takesData =>
      cases takesData with
      | true => exact .inl ⟨_, rfl⟩
      | false => exact .inr rfl

/- A save to an open file that takes the text. -/
theorem save_of_accept
    {config : Config}
    {target : Target}
    (hCreate : disk.create path = .ok (opened, target))
    (hAccept :
      opened.accept target config.text.toUTF8 =
        .ok disk') :
    config.save disk path = (disk', .ok ()) := by
  unfold save
  rw [hCreate]
  simp only [hAccept]

/- A save to a device that refuses all data. -/
theorem save_of_refusing
    (config : Config)
    (hCreate :
      disk.create path = .ok (opened, .device false)) :
    config.save disk path =
      (opened,
        if config.text.toUTF8.size < bufferSize then .ok ()
        else
          .error
            (.unserializable path (.system .noSpace))) := by
  unfold save
  rw [hCreate]
  simp only [accept_refusing]
  split
  · rfl
  · rfl

/-
  A save opens nothing, or it has the text taken, or a device
  refuses it.
-/
theorem save_cases
    (config : Config)
    (disk : Disk)
    (path : String) :
    (∃ fault,
        disk.create path = .error fault ∧
          config.save disk path =
            (disk, .error (.unwritable path fault))) ∨
      (∃ opened target taken,
          disk.create path = .ok (opened, target) ∧
            opened.accept target config.text.toUTF8 =
                .ok taken ∧
              config.save disk path = (taken, .ok ())) ∨
        ∃ opened,
          disk.create path = .ok (opened, .device false) ∧
            config.save disk path =
              (opened,
                if config.text.toUTF8.size < bufferSize then
                  .ok ()
                else
                  .error
                    (.unserializable path
                      (.system .noSpace))) := by
  cases hCreate : disk.create path with
  | error fault =>
      refine .inl ⟨fault, rfl, ?_⟩
      unfold save
      rw [hCreate]
  | ok result =>
      rcases result with ⟨opened, target⟩
      rcases config.accept_cases opened target with
        ⟨taken, hAccept⟩ | rfl
      · exact
          .inr (.inl
            ⟨opened, target, taken, rfl, hAccept,
              save_of_accept hCreate hAccept⟩)
      · exact
          .inr (.inr
            ⟨opened, rfl, save_of_refusing config hCreate⟩)

/- What a file took is read and loaded again. -/
theorem load_of_accept
    {config : Config}
    {names : List String}
    (hCreate :
      disk.create path = .ok (opened, .file names))
    (hAccept :
      opened.accept (.file names) config.text.toUTF8 =
        .ok disk') :
    disk'.read path = .ok config.text ∧
      load disk'.read path = .ok config := by
  cases hAccept
  have hRead := Disk.read_of_create hCreate config.text
  refine ⟨hRead, ?_⟩
  unfold load
  rw [hRead]
  simp only [ofText_text]
  rfl

/-
  Saves account for the text.  If one is reported as done,
  then the text was taken, and by a file so that the same
  configuration is loaded again, or else a device refused it
  all and it is smaller than the buffer.  If one is reported
  as failed, then nothing was opened, or a device refused a
  text that is not smaller.  Written piece by piece to a
  file that runs full somewhere, a text that is reported as
  written has been taken as far as there was room, and what
  is lost fits the buffer.
-/
theorem save_accounts
    (config : Config)
    (disk disk' : Disk)
    (path : String) :
    let data := config.text.toUTF8
    (config.save disk path = (disk', .ok ()) →
        ∃ opened target,
          disk.create path = .ok (opened, target) ∧
            ((opened.accept target data = .ok disk' ∧
                ∀ names,
                  target = .file names →
                    disk'.read path = .ok config.text ∧
                      load disk'.read path =
                        .ok config) ∨
              target = .device false ∧ disk' = opened ∧
                data.size < bufferSize)) ∧
      (∀ failure,
        config.save disk path = (disk', .error failure) →
          (∃ fault,
              disk.create path = .error fault ∧
                disk' = disk ∧
                  failure = .unwritable path fault) ∨
            disk.create path =
                .ok (disk', .device false) ∧
              bufferSize ≤ data.size ∧
                failure =
                  .unserializable path
                    (.system .noSpace)) ∧
        ∀ (sink : Sink) (pieces : List (List UInt8)),
          pieces.flatten = data.data.toList →
            (∀ piece ∈ pieces.dropLast,
              bufferSize ≤ piece.length) →
              let outcome :=
                sink.writeBuffered bufferSize pieces
              (sink.room = some 0 →
                  (outcome.2 = true ↔
                    data.size < bufferSize)) ∧
                (outcome.2 = true →
                  ∃ kept lost,
                    kept ++ lost = data.data.toList ∧
                      sink.Took kept outcome.1 ∧
                        lost.length ≤ bufferSize ∧
                          (lost = [] ↔
                            sink.Fits data.size)) ∧
                  (sink.Fits data.size →
                    outcome.2 = true ∧
                      sink.Took data.data.toList
                        outcome.1) := by
  intro data
  refine ⟨?_, ?_, ?_⟩
  · intro hSave
    rcases save_cases config disk path with
      ⟨fault, _, hCase⟩ |
        ⟨opened, target, taken, hCreate, hAccept, hCase⟩ |
          ⟨opened, hCreate, hCase⟩
    · rw [hCase] at hSave
      cases hSave
    · rw [hCase] at hSave
      cases hSave
      refine ⟨opened, target, hCreate, .inl ⟨hAccept, ?_⟩⟩
      rintro names rfl
      exact load_of_accept hCreate hAccept
    · rw [hCase] at hSave
      split at hSave
      · rename_i hSmall
        cases hSave
        exact
          ⟨disk', .device false, hCreate,
            .inr ⟨rfl, rfl, hSmall⟩⟩
      · cases hSave
  · intro failure hSave
    rcases save_cases config disk path with
      ⟨fault, hCreate, hCase⟩ | ⟨_, _, _, _, _, hCase⟩ |
        ⟨opened, hCreate, hCase⟩
    · rw [hCase] at hSave
      cases hSave
      exact .inl ⟨fault, hCreate, rfl, rfl⟩
    · rw [hCase] at hSave
      cases hSave
    · rw [hCase] at hSave
      split at hSave
      · cases hSave
      · rename_i hLarge
        cases hSave
        exact .inr ⟨hCreate, Nat.not_lt.mp hLarge, rfl⟩
  · intro sink pieces hPieces hLarge outcome
    have hSize : data.size = pieces.flatten.length := by
      rw [hPieces]
      rfl
    rw [hSize, ← hPieces]
    exact
      ⟨fun hFull =>
          Sink.writeBuffered_of_full hFull (by decide) hLarge,
        sink.exists_took_writeBuffered,
        sink.writeBuffered_of_fits⟩

/- A disk with a link to where a file can be made. -/
def linked : Disk where
  tree :=
    ⟨[(["conf"], .directory),
      (["conf", "current"], .link "../kept.yaml")]⟩

/- A file is made behind the link. -/
theorem create_linked :
    linked.create "/conf/current" =
      .ok
        (linked.put ["kept.yaml"] (.file .empty),
          .file ["kept.yaml"]) := by
  have hNull : "/conf/current".contains '\x00' = false := by
    cbv
  have hWalk :
      linked.walk .create "/conf/current" =
        .ok (.free [] "kept.yaml") := by
    rfl
  unfold Disk.create
  rw [hNull, if_neg (by decide), hWalk]
  rfl

/-
  A key of two lines is saved behind the link and loaded
  again.  A file with room for ten octets loses the rest of
  the text, and the save is reported as done.
-/
theorem save_accounts_linked :
    let config : Config := { includesKey := "a: b\n#" }
    let data := config.text.toUTF8
    let sink : Sink := { room := some 10 }
    (∃ disk',
        config.save linked "/conf/current" =
            (disk', .ok ()) ∧
          load disk'.read "/conf/current" = .ok config) ∧
      (sink.writeBuffered bufferSize
            [data.data.toList]).2 = true ∧
        ∃ kept lost,
          kept ++ lost = data.data.toList ∧ lost ≠ [] ∧
            sink.Took kept
              (sink.writeBuffered bufferSize
                [data.data.toList]).1 := by
  intro config data sink
  let saved :=
    (linked.put ["kept.yaml"] (.file .empty)).put
      ["kept.yaml"] (.file data)
  have hSave :
      config.save linked "/conf/current" =
        (saved, .ok ()) :=
    save_of_accept create_linked rfl
  have hAccounts :=
    save_accounts config linked saved "/conf/current"
  have hLoad := hAccounts.1 hSave
  rw [create_linked] at hLoad
  rcases hLoad with
    ⟨opened, target, hOpened, ⟨_hAccept, hLoad⟩ | ⟨hNo, _⟩⟩
  case inr =>
    cases hOpened
    cases hNo
  cases hOpened
  have hDone :
      (sink.writeBuffered bufferSize
        [data.data.toList]).2 = true := by
    decide +kernel
  have hSize : ¬ data.size ≤ 10 := by
    decide +kernel
  have hPieces :=
    hAccounts.2.2 sink [data.data.toList] (by simp [data])
      (by simp)
  rcases hPieces.2.1 hDone with
    ⟨kept, lost, hKept, hTook, _hSpace, hLost⟩
  refine
    ⟨⟨saved, hSave, (hLoad _ rfl).2⟩, hDone, kept, lost,
      hKept, ?_, hTook⟩
  intro hNone
  exact hSize (hLost.mp hNone 10 rfl)

end Config

end Transclusion
