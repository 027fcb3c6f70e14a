-- A run of the command line. The input is read and converted as a whole
-- before anything is written. A file to write to is opened, and so emptied,
-- before the output is put into bytes.
import Lectern.Cli.Files
import Lectern.Cli.Manual
import Lectern.Cli.Options
import Lectern.Log
import Lectern.Text.Utf8

namespace Lectern.Cli

/-! ## Input -/

/-- Why a run has nothing to write. -/
inductive Failure
  | unreadable (fault : OpenFault)
  | notUtf8 (fault : Utf8.Fault)
  | conversion (fault : Conversion.Fault)

/-- Bytes that are not UTF-8, in words. -/
def utf8Message (f : Utf8.Fault) : Text :=
  let piece :=
    if f.length = 1 then
      Text.ofString "byte 0x" ++ Text.hex 2 f.first.toNat ++ Text.ofString " in position "
        ++ Text.ofNat f.offset
    else
      Text.ofString "bytes in position " ++ Text.ofNat f.offset ++ Text.ofString "-"
        ++ Text.ofNat (f.offset + f.length - 1)
  let reason :=
    match f.reason with
    | .badStart => "invalid start byte"
    | .badContinuation => "invalid continuation byte"
    | .unexpectedEnd => "unexpected end of data"
  Text.ofString "input is not valid UTF-8: 'utf-8' codec can't decode " ++ piece
    ++ Text.ofString ": " ++ Text.ofString reason

/-- Surrogates that cannot be written, in words. -/
def unwritableMessage (u : Utf8.Unwritable) : Text :=
  let piece :=
    if u.length = 1 then
      Text.ofString "character '" ++ Text.numbered u.first ++ Text.ofString "' in position "
        ++ Text.ofNat u.offset
    else
      Text.ofString "characters in position " ++ Text.ofNat u.offset ++ Text.ofString "-"
        ++ Text.ofNat (u.offset + u.length - 1)
  Text.ofString "'utf-8' codec can't encode " ++ piece
    ++ Text.ofString ": surrogates not allowed"

/-- Why a path cannot be handed to the system, in words. -/
def PathFault.message : PathFault → Text
  | .unwritable run => unwritableMessage run
  | .nullByte => Text.ofString "embedded null byte"

/-- Why nothing is opened, in words. -/
def OpenFault.message : OpenFault → Text
  | .path fault => fault.message
  | .file fault => fault.message

/-- The event that a failure is. -/
def Failure.event : Failure → Event
  | .unreadable fault => .unreadable fault.message
  | .notUtf8 fault => .failed (utf8Message fault)
  | .conversion fault => .failed fault.message

/-- The text of input bytes, with every line end as one line feed. -/
def inputText (bytes : List UInt8) : Except Utf8.Fault Text :=
  (Utf8.decode bytes).map Text.unifyLineEnds

/-- The settings that options ask for. -/
def Options.config (o : Options) : Config := { Config.standard with rawBlocks := o.rawBlocks }

/-- The conversion of an input, which may be one that cannot be read. -/
def convertInput (o : Options) (input : Except OpenFault (List UInt8)) :
    Except Failure Conversion :=
  match input with
  | .error fault => .error (.unreadable fault)
  | .ok bytes =>
    match inputText bytes with
    | .error fault => .error (.notUtf8 fault)
    | .ok t =>
      match Conversion.ofText o.config t with
      | .error fault => .error (.conversion fault)
      | .ok c => .ok c

/-- The events of converting an input. -/
def inputEvents (o : Options) (input : Except OpenFault (List UInt8)) : List Event :=
  match input with
  | .error _ => []
  | .ok bytes =>
    match inputText bytes with
    | .error _ => []
    | .ok t => Conversion.events o.config t

/-- The lines of the log. Without `verbose` it holds errors only. -/
def logText (verbose : Bool) (events : List Event) : Text :=
  (events.filter fun e => verbose || e.severity = .error).flatMap Event.line

/-! ## Outcome -/

/-- Why a run breaks off. -/
inductive Uncaught
  | longNumber (digits : Nat)
  /-- Rendering breaks off. -/
  | overflow
  | unopened (fault : OpenFault)
  | unwritable (fault : Utf8.Unwritable)
deriving DecidableEq

/-- The reason for breaking off, in words. -/
def Uncaught.message : Uncaught → Text
  | .longNumber digits => (Json.Fault.longNumber digits).message
  | .overflow => Conversion.Fault.overflow.message
  | .unopened fault => fault.message
  | .unwritable fault => unwritableMessage fault

/-- Why a run breaks off at a failure. It does at a whole number with too many
digits, where rendering breaks off, and at a path that is no path. All other
failures are reported. -/
def Failure.uncaught? : Failure → Option Uncaught
  | .conversion (.json (.longNumber digits)) => some (.longNumber digits)
  | .conversion .overflow => some .overflow
  | .unreadable (.path fault) => some (.unopened (.path fault))
  | _ => none

/-- How a run ends. -/
inductive Ending
  | exit (code : Nat)
  | uncaught (cause : Uncaught)
deriving DecidableEq

/-- What a run leaves behind. -/
structure Outcome where
  output : Text
  log : Text
  files : Files
  ending : Ending

/-- The output of a conversion, written where the options say. -/
def deliver (o : Options) (files : Files) (events : List Event) (c : Conversion) : Outcome :=
  if o.output = standardStream then
    match Utf8.encode c.output with
    | .error u => ⟨[], logText o.verbose events, files, .uncaught (.unwritable u)⟩
    | .ok _ => ⟨c.output, logText o.verbose events, files, .exit 0⟩
  else
    match files.target (Path.ofText o.output) with
    | .error fault => ⟨[], logText o.verbose events, files, .uncaught (.unopened fault)⟩
    | .ok place =>
      let emptied := files.put place []
      match Utf8.encode c.output with
      | .error u => ⟨[], logText o.verbose events, emptied, .uncaught (.unwritable u)⟩
      | .ok bytes =>
        let wrote : Event := .wrote c.slides.length o.output
        ⟨[], logText o.verbose (events ++ [wrote]), emptied.put place bytes, .exit 0⟩

section

variable {o : Options} {files : Files} {events : List Event} {c : Conversion}
  {bytes : List UInt8}

/-- Output to the stream changes no file. -/
theorem deliver_toStream (ho : o.output = standardStream)
    (he : Utf8.encode c.output = .ok bytes) :
    deliver o files events c = ⟨c.output, logText o.verbose events, files, .exit 0⟩ := by
  simp only [deliver, if_pos ho, he]

/-- Output to a file puts nothing into the stream. -/
theorem deliver_toFile {place : Location} (ho : o.output ≠ standardStream)
    (ht : files.target (Path.ofText o.output) = .ok place)
    (he : Utf8.encode c.output = .ok bytes) :
    deliver o files events c =
      ⟨[], logText o.verbose (events ++ [.wrote c.slides.length o.output]),
        files.put place bytes, .exit 0⟩ := by
  simp only [deliver, if_neg ho, ht, he, Files.put_put]

end

/-- The input that options name. -/
def inputOf (o : Options) (stdin : List UInt8) (files : Files) :
    Except OpenFault (List UInt8) :=
  if o.input = standardStream then .ok stdin else files.read (Path.ofText o.input)

/-- A run with options on an input, which may be one that cannot be read. -/
def runOn (o : Options) (input : Except OpenFault (List UInt8)) (files : Files) : Outcome :=
  let events := inputEvents o input
  match convertInput o input with
  | .ok c => deliver o files events c
  | .error failure =>
    match failure.uncaught? with
    | some cause => ⟨[], logText o.verbose events, files, .uncaught cause⟩
    | none => ⟨[], logText o.verbose (events ++ [failure.event]), files, .exit 1⟩

/-- A run with options on the input that they name. -/
def runWith (o : Options) (stdin : List UInt8) (files : Files) : Outcome :=
  runOn o (inputOf o stdin files) files

/-- A run of the command line. -/
def run (arguments : List Text) (stdin : List UInt8) (files : Files) : Outcome :=
  match Options.parse arguments with
  | .error .help => ⟨Manual.help, [], files, .exit 0⟩
  | .error (.misuse m) => ⟨[], Manual.usage ++ Manual.error m.message, files, .exit 2⟩
  | .ok o => runWith o stdin files

end Lectern.Cli
