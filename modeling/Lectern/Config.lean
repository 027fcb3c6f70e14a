-- What a conversion can be told: the text around the slides, and what to
-- do with raw blocks.
import Lectern.Json.Display
import Lectern.Slide.Template

namespace Lectern

open Json (Value)

/-- What a conversion does with raw blocks: it writes them as they are, or
it refuses the document. -/
inductive RawPolicy
  | passthrough
  | fail
deriving DecidableEq

namespace RawPolicy

/-- The name of a policy. -/
def name : RawPolicy → Text
  | .passthrough => Text.ofString "passthrough"
  | .fail => Text.ofString "fail"

/-- All policies. -/
def all : List RawPolicy := [.passthrough, .fail]

/-- The policy with a name. -/
def ofName? (name : Text) : Option RawPolicy := all.find? fun p => p.name = name

theorem ofName?_name (p : RawPolicy) : ofName? p.name = some p := by cases p <;> decide

/-- The policy that a value names. -/
def ofValue? : Value → Option RawPolicy
  | .string t => ofName? t
  | _ => none

/-- The policy that a value acts as. A value that names none lets raw
blocks through. -/
def actingAs (v : Value) : RawPolicy := (ofValue? v).getD .passthrough

end RawPolicy

/-- The settings of a conversion. -/
structure Config where
  prologue : Text
  epilogue : Text
  rawBlocks : RawPolicy

namespace Config

/-- The settings that hold unless others are given. -/
def standard : Config := ⟨Template.prologue, Template.epilogue, .passthrough⟩

/-- A setting that names no policy for raw blocks. -/
structure Fault where
  given : Value

/-- The fault in words. -/
def Fault.message (f : Fault) : Text :=
  Text.ofString "raw_block must be one of "
    ++ Text.joinWith (Text.ofString ", ") (RawPolicy.all.map RawPolicy.name)
    ++ Text.ofString ", got " ++ f.given.display

/-- Settings made from what is given. What is not given is standard, and
the policy must be one that there is. -/
def make (prologue epilogue : Option Text) (rawBlocks : Option Value) : Except Fault Config :=
  let around : Config :=
    { standard with
      prologue := prologue.getD standard.prologue
      epilogue := epilogue.getD standard.epilogue }
  match rawBlocks with
  | none => .ok around
  | some v =>
    match RawPolicy.ofValue? v with
    | some policy => .ok { around with rawBlocks := policy }
    | none => .error ⟨v⟩

/-- A single setting, to be put in place of the one that is there. -/
inductive Assignment
  | prologue (t : Text)
  | epilogue (t : Text)
  | rawBlocks (v : Value)

/-- Puts a setting in place without looking at it. -/
def assign (config : Config) : Assignment → Config
  | .prologue t => { config with prologue := t }
  | .epilogue t => { config with epilogue := t }
  | .rawBlocks v => { config with rawBlocks := RawPolicy.actingAs v }

end Config

end Lectern
