import Transclusion.Number.Number

/-
  Why a text could not be read or written.

  Key definitions include:
    * `Transclusion.SystemFault`
    * `Transclusion.Fault`
    * `Transclusion.Fault.message`
-/

------------------------------------------------------------
-- Faults
------------------------------------------------------------

namespace Transclusion

/- What a file system refuses. -/
inductive SystemFault where
  | notFound
  | accessDenied
  | exists
  | notDirectory
  | isDirectory
  | invalidArgument
  | noSpace
  | nameTooLong
  | directoryNotEmpty
  | tooManyLinks
  | other (code : Nat)
  deriving DecidableEq

namespace SystemFault

/- The number that a file system gives for a refusal. -/
def code : SystemFault → Nat
  | notFound => 2
  | accessDenied => 13
  | SystemFault.exists => 17
  | notDirectory => 20
  | isDirectory => 21
  | invalidArgument => 22
  | noSpace => 28
  | nameTooLong => 36
  | directoryNotEmpty => 39
  | tooManyLinks => 40
  | other code => code

/- The refusals that have names. -/
def named : List SystemFault :=
  [.notFound, .accessDenied, .exists, .notDirectory,
    .isDirectory, .invalidArgument, .noSpace, .nameTooLong,
    .directoryNotEmpty, .tooManyLinks]

/- The refusal that a number stands for. -/
def ofCode
    (code : Nat) : SystemFault :=
  (named.find? fun fault => fault.code = code).getD
    (.other code)

/- The refusal in words. -/
def reason : SystemFault → String
  | notFound => "No such file or directory"
  | accessDenied => "Permission denied"
  | SystemFault.exists => "File exists"
  | notDirectory => "Not a directory"
  | isDirectory => "Is a directory"
  | invalidArgument => "Invalid argument"
  | noSpace => "No space left on device"
  | nameTooLong => "File name too long"
  | directoryNotEmpty => "Directory not empty"
  | tooManyLinks => "Too many levels of symbolic links"
  | other code => "Unknown error " ++ integerText code

end SystemFault

/- Why a text could not be read or written. -/
inductive Fault where
  | system (fault : SystemFault)
  | notText
  | nullInPath
  | notRegistered (path : String)
  deriving DecidableEq

namespace Fault

/- What is said about a fault. -/
def message : Fault → String
  | system fault =>
      fault.reason ++ " (os error " ++
        integerText fault.code ++ ")"
  | notText => "stream did not contain valid UTF-8"
  | nullInPath =>
      "file name contained an unexpected NUL byte"
  | notRegistered path =>
      "no document registered for '" ++ path ++ "'"

end Fault

end Transclusion
