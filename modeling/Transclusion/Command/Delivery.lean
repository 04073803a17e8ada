import Transclusion.Command.Run

/-
  Texts that commands write to files.

  Key definitions include:
    * `Transclusion.Disk.deliver`
    * `Transclusion.Disk.run`
-/

------------------------------------------------------------
-- Deliveries
------------------------------------------------------------

namespace Transclusion

namespace Disk

/- Write a text to its file, with the directories above. -/
def deliver
    (disk : Disk)
    (delivery : Delivery) :
    Disk × Except DeliveryFault Unit :=
  let path := delivery.path
  let parent := (parentPath? path).getD ""
  match disk.makeDirectories parent with
  | (disk, .error fault) =>
      (disk, .error (.directory parent (.system fault)))
  | (disk, .ok ()) =>
      match disk.write path delivery.text with
      | (disk, .error fault) =>
          (disk, .error (.file path fault))
      | (disk, .ok ()) => (disk, .ok ())

/- Run a command on a disk. -/
def run
    (disk : Disk)
    (invocation : Invocation) : Disk × Outcome :=
  let outcome := invocation.run disk.reader
  match outcome.delivery with
  | none => (disk, outcome)
  | some delivery =>
      let (disk, result) := disk.deliver delivery
      (disk, outcome.delivered result)

end Disk

end Transclusion
