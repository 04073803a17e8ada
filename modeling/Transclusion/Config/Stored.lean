import Transclusion.Config.Config
import Transclusion.Disk.Disk
import Transclusion.Resolve.Error

/-
  Configurations kept in files.

  Key definitions include:
    * `Transclusion.Config.load`
    * `Transclusion.Config.save`

  A text that fits the writing buffer is handed over when
  the file is closed, and what goes wrong then is not told.
-/

------------------------------------------------------------
-- Loading
------------------------------------------------------------

namespace Transclusion

namespace Config

/- Load the configuration under a path, with a reader. -/
def load
    (read : String → Except Fault String)
    (path : String) : Except Failure Config :=
  match read path with
  | .error fault => .error (.unreadable path fault)
  | .ok text => (ofText text).mapError (.malformed path)

end Config

end Transclusion

------------------------------------------------------------
-- Saving
------------------------------------------------------------

namespace Transclusion

namespace Config

/- The octets that fit the writing buffer. -/
def bufferSize : Nat :=
  8192

/- Save a configuration under a path. -/
def save
    (config : Config)
    (disk : Disk)
    (path : String) : Disk × Except Failure Unit :=
  let data := config.text.toUTF8
  match disk.create path with
  | .error fault => (disk, .error (.unwritable path fault))
  | .ok (opened, target) =>
      match opened.accept target data with
      | .ok disk => (disk, .ok ())
      | .error fault =>
          if data.size < bufferSize then (opened, .ok ())
          else
            (opened,
              .error (.unserializable path (.system fault)))

end Config

end Transclusion
