import Transclusion.Config.Direct
import Transclusion.Proofs.Value.Fields
import Transclusion.Proofs.Yaml.Source

/-
  What is read straight from the notation of a tree.

  Key definitions include:
    * `Transclusion.Yaml.Source.bool?`
    * `Transclusion.Yaml.Source.choice?`
    * `Transclusion.Yaml.Source.record?`
    * `Transclusion.Yaml.Read.Tells`

  Key theorems include:
    * `Transclusion.Yaml.Read.ignore_eq`
    * `Transclusion.Yaml.Read.tells_choice`
    * `Transclusion.Yaml.Read.tells_record`

  A reading depends on nothing but the tree that the items
  hold.  It follows the aliases of the tree, or fewer of
  them where it leaves a part of the tree out.
-/

------------------------------------------------------------
-- What Is Told
------------------------------------------------------------

namespace Transclusion

namespace Yaml

namespace Source

/- The Boolean value that a scalar is. -/
def bool? : Source → Option Bool
  | scalar tag text style =>
      if style == .plain ||
          (style == .literal &&
            tag.bind CoreTag.ofTag? == some .bool) then
        Yaml.bool? text
      else
        none
  | _ => none

/-
  The choice that a scalar is: its text, or if it has a tag
  of its own the name of the tag, with nothing behind it.
-/
def choice?
    (names : List String) : Source → Option String
  | scalar tag text style =>
      match TagText.local? tag with
      | some name =>
          if names.contains name &&
              (style = .plain &&
                (text = [] || isNullWord text)) then
            some name
          else
            none
      | none =>
          if names.contains (String.ofList text) then
            some (String.ofList text)
          else
            none
  | _ => none

/- The names of fields, and what their values tell. -/
abbrev FieldTeller :=
  String × (Source → Option Value)

/- The known fields of entries, behind given ones. -/
def fields?
    (tellers : List FieldTeller)
    (found : Fields) :
    List (Source × Source) →
      Option (List (String × Value))
  | [] => some found
  | (key, value) :: rest => do
      let name ← key.string?
      match tellers.lookup name with
      | none => fields? tellers found rest
      | some tell =>
          if Fields.hasKey found name then none
          else
            let told ← tell value
            fields? tellers (found ++ [(name, told)]) rest

/- The known fields of a mapping, or of what is left out. -/
def record?
    (tellers : List FieldTeller) :
    Source → Option (List (String × Value))
  | mapping _ entries => fields? tellers [] entries
  | scalar _ text style =>
      if text = [] && style = .plain then some []
      else none
  | sequence _ _ => none

end Source

end Yaml

end Transclusion

------------------------------------------------------------
-- How Readings End
------------------------------------------------------------

namespace Transclusion

namespace Yaml

namespace Read

/-
  How a run ends: with what is expected, in front of given
  items and with no more than so many aliases followed, or
  with a failure if nothing is expected.
-/
def Ends
    {α : Type}
    (run : Except ReadError (α × ReadState))
    (expected : Option α)
    (after : List Item)
    (most : Nat) : Prop :=
  match expected with
  | some result =>
      ∃ followed ≤ most, run = .ok (result, ⟨after, followed⟩)
  | none => ∃ error, run = .error error

section

variable {α β : Type}
variable {read : Read α}
variable {state : ReadState}
variable {expected : Option α}
variable {items after : List Item}
variable {most : Nat}

/- Where a reading stands does not change how it ends. -/
theorem Ends.located
    (hEnds : Ends (read state) expected after most)
    (mark : Mark)
    (place : Place) :
    Ends (Read.located mark place read state) expected after
      most := by
  unfold Read.located
  cases expected with
  | none =>
      rcases hEnds with ⟨error, hError⟩
      rw [hError]
      exact ⟨_, rfl⟩
  | some result =>
      rcases hEnds with ⟨followed, hMost, hOk⟩
      rw [hOk]
      exact ⟨followed, hMost, rfl⟩

/- A reading that goes on ends as its steps do. -/
theorem Ends.bind
    {next : α → Read β}
    {final : α → Option β}
    {middle : List Item}
    {least : Nat}
    (hFirst : Ends (read state) expected middle least)
    (hNext :
      ∀ result followed,
        expected = some result →
          followed ≤ least →
            Ends (next result ⟨middle, followed⟩)
              (final result) after most) :
    Ends ((read >>= next) state) (expected.bind final) after
      most := by
  change Ends (Except.bind (read state) _) _ _ _
  cases expected with
  | none =>
      rcases hFirst with ⟨error, hError⟩
      rw [hError]
      exact ⟨error, rfl⟩
  | some result =>
      rcases hFirst with ⟨followed, hLeast, hOk⟩
      rw [hOk]
      exact hNext result followed rfl hLeast

/- A reading may follow fewer aliases than it has room for. -/
theorem Ends.mono
    {run : Except ReadError (α × ReadState)}
    {least : Nat}
    (hEnds : Ends run expected after least)
    (hMost : least ≤ most) :
    Ends run expected after most := by
  cases expected with
  | none => exact hEnds
  | some result =>
      rcases hEnds with ⟨followed, hLeast, hOk⟩
      exact ⟨followed, hLeast.trans hMost, hOk⟩

/- What a reading gives can be put in another form. -/
theorem Ends.map
    (hEnds : Ends (read state) expected after most)
    (f : α → β) :
    Ends ((f <$> read) state) (expected.map f) after most := by
  change Ends (Except.bind (read state) _) _ _ _
  cases expected with
  | none =>
      rcases hEnds with ⟨error, hError⟩
      rw [hError]
      exact ⟨error, rfl⟩
  | some result =>
      rcases hEnds with ⟨followed, hMost, hOk⟩
      rw [hOk]
      exact ⟨followed, hMost, rfl⟩

/- A run that ends gives what is expected, and only that. -/
theorem Ends.exists_ok_iff
    {run : Except ReadError (α × ReadState)}
    (hEnds : Ends run expected after most)
    {result : α} :
    (∃ final, run = .ok (result, final)) ↔
      expected = some result := by
  cases expected with
  | none =>
      rcases hEnds with ⟨error, rfl⟩
      simp
  | some own =>
      rcases hEnds with ⟨followed, _, rfl⟩
      simp

/- A complaint ends a reading. -/
theorem ends_complain
    (complaint : Complaint) :
    Ends (complain complaint state : Except _ (α × _)) none
      after most :=
  ⟨_, rfl⟩

/- What is refused ends a reading. -/
theorem ends_refuse
    (wanted : String)
    (kind : ItemKind) :
    Ends (refuse wanted kind state : Except _ (α × _)) none
      after most := by
  cases kind
  case scalar tag text style =>
    unfold refuse
    simp only
    cases Scalar.resolve tag text style <;>
      exact ends_complain _
  all_goals exact ⟨_, rfl⟩

end

/-
  Whether a reading of nodes gives what their notation tells
  and follows no other aliases than those in it.
-/
def Tells
    {α : Type}
    (document : Document)
    (read : Place → Read α)
    (tell : Source → Option α) : Prop :=
  ∀ source items after count,
    document.Holds items (.node source) after count →
      items.length ≤ document.size →
        ∀ place followed,
          followed + count ≤ document.size * 100 →
            Ends (read place ⟨items, followed⟩) (tell source)
              after (followed + count)

/- The same of what stands in the place of a node. -/
def TellsContent
    {α : Type}
    (document : Document)
    (read : Place → Item → Read α)
    (tell : Source → Option α) : Prop :=
  ∀ source item rest after count,
    document.Holds (item :: rest) (.content source) after
        count →
      rest.length < document.size →
        ∀ place followed,
          followed + count ≤ document.size * 100 →
            Ends (read place item ⟨rest, followed⟩)
              (tell source) after (followed + count)

variable {document : Document}

/- What is told can be put in another form. -/
theorem Tells.map
    {α β : Type}
    {read : Place → Read α}
    {tell : Source → Option α}
    (hTells : Tells document read tell)
    (f : α → β) :
    Tells document (fun place => f <$> read place)
      (fun source => (tell source).map f) := by
  intro source items after count hHolds hLength place
    followed hRoom
  exact
    (hTells source items after count hHolds hLength place
      followed hRoom).map f

/- An alias ends as its node, in front of what is behind it. -/
theorem Ends.follow
    {α : Type}
    {read : Read α}
    {number start followed most : Nat}
    {rest behind : List Item}
    {expected : Option α}
    (hAnchor :
      document.anchors.lookup number = some start)
    (hRoom : followed + 1 ≤ document.size * 100)
    (hEnds :
      Ends (read ⟨document.items.drop start, followed + 1⟩)
        expected behind most) :
    Ends (Read.follow document number read ⟨rest, followed⟩)
      expected rest most := by
  unfold Read.follow
  rw [bind_ok get_ok]
  simp only
  rw [if_neg (Nat.not_lt.mpr hRoom), hAnchor]
  have hBack :
      Ends
        ((do
          let result ← read
          modify fun after => { after with rest := rest }
          return result : Read α)
          ⟨document.items.drop start, followed + 1⟩)
        (expected.bind some) rest most :=
    hEnds.bind fun _ _ _ hMost => ⟨_, hMost, rfl⟩
  rw [Option.bind_fun_some] at hBack
  exact hBack

/- A node is read where it stands, or where its alias leads. -/
theorem tells_content
    {α : Type}
    {read : Place → Item → Read α}
    {tell : Source → Option α}
    (hSize : document.items.length ≤ document.size)
    (hRead : TellsContent document read tell) :
    Tells document
      (fun place => content document place read) tell := by
  intro source items after count hHolds hLength place followed
    hRoom
  cases hHolds with
  | here hContent =>
      have hHere := hContent
      cases hContent
      all_goals
        exact hRead _ _ _ _ _ hHere hLength _ _ hRoom
  | @aliasOf mark number start rest behind _ count hAnchor
      hContent =>
      have hDrop :
          (document.items.drop start).length ≤
            document.size := by
        rw [List.length_drop]
        exact (Nat.sub_le _ _).trans hSize
      have hInside :
          followed + 1 + count ≤ document.size * 100 := by
        omega
      have hTarget :
          Ends
            ((do
                read (.referent place)
                  (← next document) : Read α)
              ⟨document.items.drop start, followed + 1⟩)
            (tell source) behind (followed + 1 + count) := by
        cases hItems : document.items.drop start with
        | nil =>
            rw [hItems] at hContent
            cases hContent
        | cons item more =>
            rw [hItems] at hContent hDrop
            exact
              hRead _ _ _ _ _ hContent hDrop _ _ hInside
      rw [Nat.add_right_comm, Nat.add_assoc] at hTarget
      change Ends (located mark place _ _) _ _ _
      exact
        (Ends.follow hAnchor (by omega) hTarget).located _ _

end Read

end Yaml

end Transclusion

------------------------------------------------------------
-- Scalars
------------------------------------------------------------

namespace Transclusion

namespace Yaml

namespace Read

variable {document : Document}

/- A string is read as it is written. -/
theorem tells_string
    (hSize : document.items.length ≤ document.size)
    (wanted : String) :
    Tells document (string wanted document)
      Source.string? := by
  refine tells_content hSize ?_
  intro source item rest after count hHolds _ place followed _
  cases hHolds with
  | scalar =>
      apply Ends.located
      exact ⟨followed, Nat.le_add_right _ _, rfl⟩
  | sequence => exact (ends_refuse _ _).located _ _
  | mapping => exact (ends_refuse _ _).located _ _

/- A Boolean value is read from its word and its style. -/
theorem tells_bool
    (hSize : document.items.length ≤ document.size) :
    Tells document (bool document) Source.bool? := by
  refine tells_content hSize ?_
  intro source item rest after count hHolds _ place followed _
  cases hHolds with
  | @scalar tag text style =>
      apply Ends.located
      unfold Source.bool?
      simp only
      generalize (style == .plain || _) = isWord
      cases isWord with
      | false => exact ends_refuse _ _
      | true =>
          cases Yaml.bool? text with
          | none => exact ends_refuse _ _
          | some b =>
              exact ⟨followed, Nat.le_add_right _ _, rfl⟩
  | sequence => exact (ends_refuse _ _).located _ _
  | mapping => exact (ends_refuse _ _).located _ _

variable {names : List String}
variable {state : ReadState}
variable {after : List Item}
variable {most : Nat}

/- A tag of its own names no collection as a choice. -/
theorem ends_taggedChoice
    {item : Item}
    (hKind :
      ∀ tag text style, item.kind ≠ .scalar tag text style)
    (place : Place)
    (name : String) :
    Ends (taggedChoice names place item name state) none after
      most := by
  unfold taggedChoice knownName
  split
  · rcases item with ⟨kind, mark⟩
    apply Ends.located
    cases kind
    case scalar tag text style =>
      exact absurd rfl (hKind tag text style)
    all_goals exact ends_refuse _ _
  · exact ⟨_, rfl⟩

/- A choice is read from its text or from its tag. -/
theorem tells_choice
    (hSize : document.items.length ≤ document.size)
    (names : List String) :
    Tells document (choice names document)
      (Source.choice? names) := by
  refine tells_content hSize ?_
  intro source item rest after count hHolds _ place followed _
  cases hHolds with
  | @scalar tag text style =>
      unfold Source.choice?
      simp only
      cases TagText.local? tag with
      | none =>
          apply Ends.located
          unfold knownName
          split
          · exact ⟨followed, Nat.le_add_right _ _, rfl⟩
          · exact ends_complain _
      | some name =>
          simp only
          unfold taggedChoice knownName
          cases names.contains name with
          | false => exact ⟨_, rfl⟩
          | true =>
              rw [Bool.true_and]
              apply Ends.located
              simp only
              split
              · exact ⟨followed, Nat.le_add_right _ _, rfl⟩
              · exact ends_complain _
  | @sequence tag =>
      simp only
      cases TagText.local? tag with
      | none => exact (ends_complain _).located _ _
      | some name => exact ends_taggedChoice (by simp) _ _
  | @mapping tag =>
      simp only
      cases TagText.local? tag with
      | none => exact (ends_complain _).located _ _
      | some name => exact ends_taggedChoice (by simp) _ _

end Read

end Yaml

end Transclusion

------------------------------------------------------------
-- What Is Left Behind
------------------------------------------------------------

namespace Transclusion

namespace Yaml

variable {document : Document}

/- How many collections are open in front of what is held. -/
def Held.opened : Held → Nat
  | node _ => 0
  | content _ => 0
  | items _ => 1
  | entries _ => 1

/- How many collections are open behind an item. -/
def ItemKind.openBehind
    (depth : Nat) : ItemKind → Nat
  | sequenceStart _ => depth + 1
  | mappingStart _ => depth + 1
  | sequenceEnd => depth - 1
  | mappingEnd => depth - 1
  | _ => depth

namespace Read

/- What is left behind once so many collections are open. -/
def leave
    (document : Document)
    (fuel depth : Nat)
    (state : ReadState) :
    Except ReadError (Unit × ReadState) :=
  if 0 < depth then ignoreFrom document fuel depth state
  else .ok ((), state)

/- Inside of a collection there is more to leave behind. -/
theorem leave_succ
    (fuel depth : Nat)
    (state : ReadState) :
    leave document fuel (depth + 1) state =
      ignoreFrom document fuel (depth + 1) state := by
  unfold leave
  rw [if_pos (Nat.succ_pos depth)]

/- Nodes are left behind item by item. -/
theorem ignoreFrom_cons
    (item : Item)
    (rest : List Item)
    (fuel depth followed : Nat) :
    ignoreFrom document (fuel + 1) depth
        ⟨item :: rest, followed⟩ =
      leave document fuel (item.kind.openBehind depth)
        ⟨rest, followed⟩ := by
  have hGoesOn (depth : Nat) :
      (if 0 < depth then ignoreFrom document fuel depth
          else pure () : Read Unit) ⟨rest, followed⟩ =
        leave document fuel depth ⟨rest, followed⟩ := by
    unfold leave
    split <;> rfl
  rcases item with ⟨kind, mark⟩
  cases kind
  case sequenceStart tag => exact hGoesOn (depth + 1)
  case mappingStart tag => exact hGoesOn (depth + 1)
  all_goals exact hGoesOn _

/-
  What is held is left behind as a whole.  Its aliases are
  not followed.
-/
theorem ignoreFrom_eq
    {items after : List Item}
    {held : Held}
    {count : Nat}
    (hHolds : document.Holds items held after count)
    {fuel steps : Nat}
    (hSteps : steps + after.length = fuel + items.length)
    (depth followed : Nat) :
    ignoreFrom document steps (depth + held.opened)
        ⟨items, followed⟩ =
      leave document fuel depth ⟨after, followed⟩ := by
  induction hHolds generalizing fuel steps depth with
  | here _ ih => exact ih hSteps depth
  | aliasOf _ _ _ | scalar | noItems | noEntries =>
      obtain rfl : steps = fuel + 1 := by
        rw [List.length_cons] at hSteps
        omega
      exact ignoreFrom_cons _ _ fuel _ followed
  | sequence hInner ih | mapping hInner ih =>
      have hShorter := hInner.length_lt
      rw [List.length_cons] at hSteps
      have hSome : steps ≠ 0 := by
        omega
      rcases Nat.exists_eq_add_one_of_ne_zero hSome with
        ⟨steps, rfl⟩
      rw [ignoreFrom_cons]
      exact
        (leave_succ steps depth _).trans
          (ih (by omega) depth)
  | @item items middle after _ _ _ _ hFirst hRest ihFirst
      ihRest =>
      have hShorter := hRest.length_lt
      let left := fuel + (middle.length - after.length)
      have hLeft :
          left + after.length = fuel + middle.length := by
        omega
      have hBoth :
          steps + middle.length = left + items.length := by
        omega
      exact
        (ihFirst hBoth (depth + 1)).trans
          ((leave_succ left depth _).trans
            (ihRest hLeft depth))
  | @entry items inner middle after _ _ _ _ _ _ hKey hValue
      hRest ihKey ihValue ihRest =>
      have hShorter := hRest.length_lt
      have hShort := hValue.length_lt
      let left := fuel + (middle.length - after.length)
      let most := left + (inner.length - middle.length)
      have hLeft :
          left + after.length = fuel + middle.length := by
        omega
      have hMost :
          most + middle.length = left + inner.length := by
        omega
      have hAll :
          steps + inner.length = most + items.length := by
        omega
      exact
        (ihKey hAll (depth + 1)).trans
          ((leave_succ most depth _).trans
            ((ihValue hMost (depth + 1)).trans
              ((leave_succ left depth _).trans
                (ihRest hLeft depth))))

/- A node is left behind. -/
theorem ignore_eq
    {items after : List Item}
    {source : Source}
    {count : Nat}
    (hHolds :
      document.Holds items (.node source) after count)
    (hLength : items.length ≤ document.size)
    (followed : Nat) :
    ignore document ⟨items, followed⟩ =
      .ok ((), ⟨after, followed⟩) := by
  have hShorter := hHolds.length_lt
  have hSteps :
      document.size + 1 + after.length =
        document.size + 1 + after.length - items.length +
          items.length := by
    omega
  exact ignoreFrom_eq hHolds hSteps 0 followed

end Read

end Yaml

end Transclusion

------------------------------------------------------------
-- Records
------------------------------------------------------------

namespace Transclusion

namespace Yaml

variable {document : Document}

/- A node begins with an item, which ends nothing. -/
theorem Document.Holds.exists_cons
    {items after : List Item}
    {source : Source}
    {count : Nat}
    (hHolds :
      document.Holds items (.node source) after count) :
    ∃ item rest,
      items = item :: rest ∧ item.kind ≠ .mappingEnd := by
  cases hHolds with
  | aliasOf => exact ⟨_, _, rfl, by simp⟩
  | here hContent =>
      cases hContent
      all_goals exact ⟨_, _, rfl, by simp⟩

namespace Read

variable {readers : List FieldReader}
variable {tellers : List Source.FieldTeller}

/-
  Whether readers of fields give what the notation of their
  values tells.
-/
def FieldsTell
    (document : Document)
    (readers : List FieldReader)
    (tellers : List Source.FieldTeller) : Prop :=
  List.Forall₂
    (fun reader teller =>
      reader.1 = teller.1 ∧
        Tells document (reader.2 document) teller.2)
    readers tellers

/- A name is known to the readers, or unknown to both. -/
theorem FieldsTell.lookup
    (hReaders : FieldsTell document readers tellers)
    (name : String) :
    Option.Rel
      (fun read tell => Tells document (read document) tell)
      (readers.lookup name) (tellers.lookup name) :=
  rel_lookup_of_forall₂
    (R := fun (read : Document → Place → Read Value) tell =>
      Tells document (read document) tell)
    hReaders name

/- An entry is a key, with a value that is known or not. -/
theorem entries_cons
    (readers : List FieldReader)
    {item : Item}
    (hKind : item.kind ≠ .mappingEnd)
    (rest : List Item)
    (place : Place)
    (fuel followed : Nat)
    (found : Fields) :
    ∃ inner,
      entries readers document place (fuel + 1) found
          ⟨item :: rest, followed⟩ =
        (do
            let key ← string "field identifier" document place
            match readers.lookup key with
            | none =>
                ignore document
                entries readers document place fuel found
            | some read =>
                if Fields.hasKey found key then
                  complain (.duplicateField key)
                let value ← read document inner
                entries readers document place fuel
                  (found ++ [(key, value)]) :
            Read (List (String × Value)))
          ⟨item :: rest, followed⟩ := by
  rcases item with ⟨kind, mark⟩
  cases kind
  case mappingEnd => exact absurd rfl hKind
  case scalar tag text style =>
    exact ⟨.entry place (String.ofList text), rfl⟩
  all_goals exact ⟨.unknown place, rfl⟩

/- Entries are read one after another. -/
theorem ends_entries
    (hSize : document.items.length ≤ document.size)
    (hReaders : FieldsTell document readers tellers)
    {written : List (Source × Source)}
    {items after : List Item}
    {count : Nat}
    (hHolds :
      document.Holds items (.entries written) after count)
    (hLength : items.length ≤ document.size)
    {fuel : Nat}
    (hFuel : items.length ≤ fuel)
    (place : Place)
    {followed : Nat}
    (hRoom : followed + count ≤ document.size * 100)
    (found : Fields) :
    Ends
      (entries readers document place fuel found
        ⟨items, followed⟩)
      (Source.fields? tellers found written) after
      (followed + count) := by
  induction written
    generalizing items after count fuel followed found with
  | nil =>
      cases hHolds
      rcases Nat.exists_eq_add_of_lt hFuel with ⟨_, rfl⟩
      exact ⟨followed, Nat.le_add_right _ _, rfl⟩
  | cons entry written ih =>
      cases hHolds with
      | @entry _ inside middle _ key value _ own count others
          hKey hValue hRest =>
      have hInside := hKey.length_lt
      have hMiddle := hValue.length_lt
      rcases hKey.exists_cons with ⟨item, rest, rfl, hKind⟩
      rw [List.length_cons] at hFuel hInside hLength
      have hSome : fuel ≠ 0 := by
        omega
      rcases Nat.exists_eq_add_one_of_ne_zero hSome with
        ⟨fuel, rfl⟩
      rcases entries_cons readers hKind rest
          place fuel followed found with
        ⟨inner, hRun⟩
      rw [hRun, Source.fields?]
      refine
        Ends.bind
          (tells_string hSize "field identifier" key _ _ _
            hKey hLength place followed (by omega))
          ?_
      intro name now _ hNow
      have hLookup := hReaders.lookup name
      generalize readers.lookup name = reader at hLookup ⊢
      generalize tellers.lookup name = teller at hLookup ⊢
      cases hLookup with
      | none =>
          simp only
          rw [bind_ok (ignore_eq hValue (by omega) now)]
          exact
            (ih hRest (by omega) (by omega) (by omega)
              found).mono (by omega)
      | @some read tell hTells =>
          simp only
          split
          · exact ⟨_, rfl⟩
          · refine
              Ends.bind
                (hTells value _ _ _ hValue (by omega) inner
                  now (by omega))
                ?_
            intro told later _ hLater
            exact
              (ih hRest (by omega) (by omega) (by omega)
                _).mono (by omega)

/- A record is read from its entries. -/
theorem tells_record
    (hSize : document.items.length ≤ document.size)
    (hReaders : FieldsTell document readers tellers)
    (name : String) :
    Tells document (record name readers document)
      (Source.record? tellers) := by
  refine tells_content hSize ?_
  intro source item rest after count hHolds hLength place
    followed hRoom
  cases hHolds with
  | @scalar tag text style =>
      apply Ends.located
      unfold Source.record?
      simp only
      split
      · exact ⟨followed, Nat.le_add_right _ _, rfl⟩
      · exact ends_refuse _ _
  | sequence => exact (ends_refuse _ _).located _ _
  | mapping hEntries =>
      apply Ends.located
      exact
        ends_entries hSize hReaders hEntries hLength.le
          (hLength.le.trans (Nat.le_succ _)) _ hRoom []

end Read

end Yaml

end Transclusion
