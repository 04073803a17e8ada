import Transclusion.Command.Run
import Transclusion.Path.Parent

/-
  The program on the command line.

  Key definitions include:
    * `main`

  A command is run on the texts that are known so far, and
  those that it asks for beyond them are read, until it asks
  for no more.
-/

------------------------------------------------------------
-- Reading and Writing
------------------------------------------------------------

namespace Transclusion

/- The number that comes with an error of the system. -/
def errorCode : IO.Error → UInt32
  | .alreadyExists _ code _ => code
  | .otherError code _ => code
  | .resourceBusy code _ => code
  | .resourceVanished code _ => code
  | .unsupportedOperation code _ => code
  | .hardwareFault code _ => code
  | .unsatisfiedConstraints code _ => code
  | .illegalOperation code _ => code
  | .protocolError code _ => code
  | .timeExpired code _ => code
  | .interrupted _ code _ => code
  | .noFileOrDirectory _ code _ => code
  | .invalidArgument _ code _ => code
  | .permissionDenied _ code _ => code
  | .resourceExhausted _ code _ => code
  | .inappropriateType _ code _ => code
  | .noSuchThing _ code _ => code
  | .unexpectedEof => 0
  | .userError _ => 0

/-
  The refusal that an error of the system stands for.  Its
  number may come with either sign.
-/
def systemFault
    (error : IO.Error) : SystemFault :=
  .ofCode (errorCode error).toInt32.toInt.natAbs

/- Do something, and tell what the system refuses. -/
def attempt
    {α : Type}
    (action : IO α) : IO (Except SystemFault α) :=
  try
    return .ok (← action)
  catch error =>
    return .error (systemFault error)

/- Read the text under a path. -/
def readText
    (path : String) : IO (Except Fault String) := do
  if path.contains '\x00' then
    return .error .nullInPath
  match ← attempt (IO.FS.readBinFile path) with
  | .error fault => return .error (.system fault)
  | .ok content =>
      match String.fromUTF8? content with
      | some text => return .ok text
      | none => return .error .notText

/- Make a directory and those above it that are missing. -/
partial def makeDirectories
    (path : String) : IO (Except SystemFault Unit) := do
  if path = "" then
    return .ok ()
  let make : IO (Except SystemFault Unit) := do
    match ← attempt (IO.FS.createDir path) with
    | .ok () => return .ok ()
    | .error fault =>
        match ← attempt (IO.FS.realPath path) with
        | .error _ => return .error fault
        | .ok place =>
            return if ← place.isDir then .ok ()
              else .error fault
  match ← make with
  | .error .notFound =>
      match parentPath? path with
      | none => make
      | some parent =>
          match ← makeDirectories parent with
          | .ok () => make
          | .error fault => return .error fault
  | result => return result

/- Write a text to its file, with the directories above. -/
def deliver
    (delivery : Delivery) :
    IO (Except DeliveryFault Unit) := do
  let path := delivery.path
  let parent := (parentPath? path).getD ""
  match ← makeDirectories parent with
  | .error fault =>
      return .error (.directory parent (.system fault))
  | .ok () =>
      let write :=
        IO.FS.withFile path .write fun handle => do
          handle.putStr delivery.text
          handle.flush
      match ← attempt write with
      | .error fault =>
          return .error (.file path (.system fault))
      | .ok () => return .ok ()

end Transclusion

------------------------------------------------------------
-- Running
------------------------------------------------------------

namespace Transclusion

/- Texts that have been read, and those that have not. -/
def readerOf
    (directory : Except Fault CanonicalPath)
    (known : List (String × Except Fault String)) :
    Reader where
  read path :=
    (known.lookup path).getD (.error (.system .notFound))
  directory := directory

/- Read what a command asks for. -/
partial def gather
    (invocation : Invocation)
    (directory : Except Fault CanonicalPath)
    (known : List (String × Except Fault String)) :
    IO Reader := do
  let reader := readerOf directory known
  let missing :=
    (invocation.inputs reader).find? fun path =>
      (known.lookup path).isNone
  match missing with
  | none => return reader
  | some path =>
      let text ← readText path
      gather invocation directory ((path, text) :: known)

/- The working directory, unless it was taken away. -/
def workingDirectory :
    IO (Except Fault CanonicalPath) := do
  match ← attempt IO.currentDir with
  | .ok path =>
      return .ok (CanonicalPath.ofText path.toString)
  | .error _ => return .error (.system .notFound)

/- The outcome of an invocation, with its file written. -/
def perform
    (invocation : Invocation) : IO Outcome := do
  let directory ← workingDirectory
  let reader ← gather invocation directory []
  let outcome := invocation.run reader
  match outcome.delivery with
  | none => return outcome
  | some delivery =>
      return outcome.delivered (← deliver delivery)

end Transclusion

/- Run the program with arguments. -/
def main
    (arguments : List String) : IO UInt32 := do
  let outcome ←
    match Transclusion.Invocation.ofArguments arguments with
    | .error stop =>
        pure (Transclusion.Outcome.ofStop stop)
    | .ok invocation => Transclusion.perform invocation
  IO.eprint outcome.messages
  IO.print outcome.output
  return outcome.status.toUInt32
