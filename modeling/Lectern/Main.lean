-- The command line itself. It looks at the files that the arguments name,
-- asks the library what a run makes of them, and carries that out.
import Lectern.Cli.Run

namespace Lectern.Cli

/-! ## Looking -/

/-- A place as the system takes it. -/
def systemPath (place : Location) : String :=
  let name (bytes : Name) := ((Utf8.decode bytes).toOption.bind Text.toString?).getD ""
  "/" ++ String.intercalate "/" (place.map name)

/-- The places on the way that names lead from a place. -/
def wayFrom (place : Location) : List Name → List Location
  | [] => [place]
  | name :: rest =>
    place :: wayFrom (if name = Path.bytes dotDot then place.dropLast else place ++ [name]) rest

/-- What is known of the files, with what stands at a place. -/
def look (files : Files) (place : Location) : IO Files := do
  try
    let bytes ← IO.FS.readBinFile (systemPath place)
    return { files with contents := (place, bytes.toList) :: files.contents }
  catch e =>
    match e with
    | .inappropriateType _ _ _ =>
      return { files with directories := place :: files.directories }
    | .permissionDenied _ _ _ =>
      return { files with
        contents := (place, []) :: files.contents
        unreadable := place :: files.unreadable }
    | _ => return files

/-- The same along the way of a path. -/
def lookAlong (files : Files) (path : Path) : IO Files :=
  (wayFrom (if path.slashes = 0 then files.here else []) path.names).foldlM look files

/-- The same with whether the file at the end of a path may be written. -/
def lookToWrite (files : Files) (path : Path) : IO Files := do
  let files ← lookAlong files path
  match files.find path with
  | (.file _, place) =>
    try
      IO.FS.withFile (systemPath place) .append fun _ => return ()
      return files
    catch _ => return { files with unwritable := place :: files.unwritable }
  | _ => return files

/-- The working directory, and nothing else. -/
def lookAround : IO Files := do
  let here := (Path.ofText (Text.ofString (toString (← IO.currentDir)))).names
  return ⟨here, [], [], [], []⟩

/-- All bytes of the standard input. -/
def readStandardInput : IO (List UInt8) := do
  let stream ← IO.getStdin
  let mut bytes := ByteArray.empty
  repeat
    let chunk ← stream.read 65536
    if chunk.isEmpty then break
    bytes := bytes ++ chunk
  return bytes.toList

/-! ## Acting -/

/-- Writes a text to a stream. What cannot be written is left out. -/
def say (stream : IO.FS.Stream) (t : Text) : IO Unit := do
  stream.write (t.flatMap fun c => (Utf8.bytes? c).getD []).toByteArray
  stream.flush

/-- Makes of the files and the streams what an outcome says, and gives the
exit code. -/
def carryOut (before : Files) (r : Outcome) : IO UInt32 := do
  for (place, bytes) in r.files.contents do
    if before.bytesAt? place ≠ some bytes then
      IO.FS.writeBinFile (systemPath place) bytes.toByteArray
  say (← IO.getStdout) r.output
  say (← IO.getStderr) r.log
  match r.ending with
  | .exit code => return UInt32.ofNat code
  | .uncaught cause =>
    say (← IO.getStderr) (cause.message ++ [CodePoint.lineFeed])
    return 1

/-- Runs the command line, and gives the exit code. -/
def execute (arguments : List String) : IO UInt32 := do
  let arguments := arguments.map Text.ofString
  let mut files ← lookAround
  let mut stdin := []
  if let .ok o := Options.parse arguments then
    if o.input = standardStream then stdin ← readStandardInput
    else files ← lookAlong files (Path.ofText o.input)
    if o.output ≠ standardStream then files ← lookToWrite files (Path.ofText o.output)
  carryOut files (run arguments stdin files)

end Lectern.Cli

def main (arguments : List String) : IO UInt32 := Lectern.Cli.execute arguments
