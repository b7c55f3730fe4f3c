import Std.Time.DateTime.Timestamp
import Provenance.Command.Basic
import Provenance.Command.Clock

/-!
# The command line

The machine that the program runs on, and its entry point.
-/

namespace Provenance.Computer

/-- The code and text of an error of the operating system. -/
def systemError : IO.Error → UInt32 × String
  | .alreadyExists _ code text | .otherError code text | .resourceBusy code text
  | .resourceVanished code text | .unsupportedOperation code text | .hardwareFault code text
  | .unsatisfiedConstraints code text | .illegalOperation code text | .protocolError code text
  | .timeExpired code text | .interrupted _ code text | .noFileOrDirectory _ code text
  | .invalidArgument _ code text | .permissionDenied _ code text | .resourceExhausted _ code text
  | .inappropriateType _ code text | .noSuchThing _ code text => (code, text)
  | .unexpectedEof => (0, "unexpected end of file")
  | .userError text => (0, text)

/-- Why a file cannot be used. The code of an error may come with a sign. -/
def fileError (e : IO.Error) : FileError :=
  let (code, text) := systemError e
  let code := code.toInt32.toInt.natAbs
  ([(2, FileError.missing), (17, .present), (20, .notFolder), (21, .isFolder)].lookup code).getD
    (.system code text)

/-- A result with the reason why a file cannot be used. -/
def attempt (x : IO α) : IO (Except FileError α) := do
  match ← x.toBaseIO with
  | .ok a => pure (.ok a)
  | .error e => pure (.error (fileError e))

/-- The path of the folder around a path. -/
def around (path : String) : String :=
  String.ofList ((path.toList.reverse.dropWhile (· = '/')).dropWhile (· ≠ '/')).reverse

/-- Makes a folder and those that it stands in, unless they are there. -/
partial def makeFolders (path : String) : IO (Except FileError Unit) := do
  match ← attempt (IO.FS.createDir path) with
  | .error .missing =>
    match ← makeFolders (around path) with
    | .ok () => attempt (IO.FS.createDir path)
    | .error e => pure (.error e)
  | .error e => do
    let here ← IO.currentDir
    if ← (here / path).isDir then pure (.ok ()) else pure (.error e)
  | .ok () => pure (.ok ())

/-- The text of a file. -/
def readText (path : String) : IO (Except FileError String) := do
  match ← attempt (IO.FS.readBinFile path) with
  | .error e => pure (.error e)
  | .ok bytes =>
    match String.fromUTF8? bytes with
    | some text => pure (.ok text)
    | none => pure (.error .notText)

/-- Puts a text in a file by way of a file beside it. -/
def writeText (path text : String) : IO (Except FileError Unit) :=
  attempt do
    IO.FS.writeFile (path ++ ".tmp") text
    IO.FS.rename (path ++ ".tmp") path

/-- The number of nanoseconds since the start of 1970. -/
def clockNanos : IO Nat := do
  pure (← Std.Time.Timestamp.now).toNanosecondsSinceUnixEpoch.toInt.toNat

/-- The current folder and those around it. -/
def foldersAround : IO (List String) := do
  let depth := ((← IO.currentDir).toString.splitOn "/").length
  pure ((List.range depth).map fun n => String.join (List.replicate n "../"))

/-- The computer that the program runs on. -/
def machine : Machine IO where
  environment name := IO.getEnv name
  variableFolders := foldersAround
  readText := readText
  writeText := writeText
  makeFolder := makeFolders
  now := do pure (Clock.timestamp (← clockNanos))
  firstId := do
    let bytes ← IO.getRandomBytes 9
    let random := bytes.foldl (fun n byte => 256 * n + byte.toNat) 0
    pure (Clock.firstId (← clockNanos) random)

end Provenance.Computer

/-- Does what the arguments ask for. -/
def main (arguments : List String) : IO UInt32 := do
  let outcome ← Provenance.Command.execute Provenance.Computer.machine arguments
  (← IO.getStdout).putStr outcome.output
  (← IO.getStderr).putStr outcome.report
  pure (UInt32.ofNat outcome.code)
