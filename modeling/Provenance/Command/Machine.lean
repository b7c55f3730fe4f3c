import Provenance.Timestamp

/-!
# The machine that a command runs on

A command asks for files, variables of the environment, the time and new identities. All of them are given
to it as one record, so that it runs in the same way on a computer and on files held in memory.
-/

namespace Provenance

/-- Why a file cannot be used. -/
inductive FileError where
  /-- There is no such file. -/
  | missing
  /-- A part of the path before its end is no folder. -/
  | notFolder
  /-- A folder stands where a file is wanted. -/
  | isFolder
  /-- A file stands where a folder is wanted. -/
  | present
  /-- The bytes of the file are no text. -/
  | notText
  /-- Any other reason of the operating system, by its code. -/
  | system (code : Nat) (text : String)
  deriving DecidableEq

namespace FileError

/-- A reason of the operating system and its code. -/
def systemText (text : String) (code : Nat) : String := text ++ s!" (os error {code})"

/-- The wording of a reason. -/
def message : FileError → String
  | .missing => systemText "No such file or directory" 2
  | .present => systemText "File exists" 17
  | .notFolder => systemText "Not a directory" 20
  | .isFolder => systemText "Is a directory" 21
  | .notText => "stream did not contain valid UTF-8"
  | .system code text => systemText text code

end FileError

/-- What a command may ask of the machine that it runs on. -/
structure Machine (m : Type → Type) where
  /-- The value of a variable of the environment. -/
  environment : String → m (Option String)
  /-- The folders in which a file of variables is looked for, nearest first. -/
  variableFolders : m (List String)
  /-- The text of the file at a path. -/
  readText : String → m (Except FileError String)
  /-- Puts a text in the file at a path, in the place of what was there. -/
  writeText : String → String → m (Except FileError Unit)
  /-- Makes a folder and those that it stands in, unless they are there. -/
  makeFolder : String → m (Except FileError Unit)
  now : m Timestamp
  /-- A number from which on all numbers are free to be identities. -/
  firstId : m Nat

end Provenance
