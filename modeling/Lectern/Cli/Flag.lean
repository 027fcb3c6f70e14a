-- The options of the command line, and how an argument names one.
import Lectern.Config
import Lectern.Text.Digits

namespace Lectern.Cli

/-! ## Options -/

/-- An option of the command line. -/
inductive Flag
  | help
  | output
  | rawBlocks
  | verbose
deriving DecidableEq

namespace Flag

/-- All options, each with its names. -/
def names : List (Text × Flag) := [
  (Text.ofString "-h", .help), (Text.ofString "--help", .help),
  (Text.ofString "-o", .output), (Text.ofString "--output", .output),
  (Text.ofString "--raw-block", .rawBlocks), (Text.ofString "--verbose", .verbose)]

/-- The option with a name. -/
def ofName? (name : Text) : Option Flag := names.lookup name

/-- Whether an option has an argument. -/
def takesArgument : Flag → Bool
  | .output | .rawBlocks => true
  | .help | .verbose => false

/-- An option in a message: all of its names. -/
def display (flag : Flag) : Text :=
  Text.joinWith (Text.ofString "/") ((names.filter fun p => p.2 = flag).map Prod.fst)

end Flag

/-! ## Arguments -/

/-- Why a command line makes no sense. -/
inductive Misuse
  /-- An argument begins the names of several options. -/
  | ambiguous (given : Text) (names : List Text)
  /-- An option that has no argument is given one. -/
  | unwantedArgument (flag : Flag) (given : Text)
  | missingArgument (flag : Flag)
  | invalidChoice (given : Text)
  /-- Arguments are left over. -/
  | unrecognized (arguments : List Text)
deriving DecidableEq

namespace Misuse

/-- A misuse in words. -/
def message : Misuse → Text
  | .ambiguous given names =>
    Text.ofString "ambiguous option: " ++ given ++ Text.ofString " could match "
      ++ Text.joinWith (Text.ofString ", ") names
  | .unwantedArgument flag given =>
    Text.ofString "argument " ++ flag.display ++ Text.ofString ": ignored explicit argument "
      ++ given.quoted
  | .missingArgument flag =>
    Text.ofString "argument " ++ flag.display ++ Text.ofString ": expected one argument"
  | .invalidChoice given =>
    Text.ofString "argument " ++ Flag.rawBlocks.display ++ Text.ofString ": invalid choice: "
      ++ given.quoted ++ Text.ofString " (choose from "
      ++ Text.joinWith (Text.ofString ", ") (RawPolicy.all.map fun p => p.name.quoted)
      ++ Text.ofString ")"
  | .unrecognized arguments =>
    Text.ofString "unrecognized arguments: " ++ Text.joinWith (Text.ofString " ") arguments

end Misuse

/-- The argument that is written together with an option. -/
structure Attached where
  /-- Whether an equals sign stands between the two. -/
  byEquals : Bool
  argument : Text
deriving DecidableEq

/-- What an argument is, on its own. -/
inductive Word
  | plain (t : Text)
  /-- Two dashes, which end the options. -/
  | separator
  /-- An option, by a short name of one dash or by a long one of two. -/
  | option (flag : Flag) (short : Bool) (attached : Option Attached)
  /-- It looks like an option and is none. -/
  | unknown (t : Text)
deriving DecidableEq

/-- The dash in front of an option. -/
def dash : CodePoint := '-'

/-- The equals sign between an option and its argument. -/
def equalsSign : CodePoint := '='

/-- Two dashes. -/
def twoDashes : Text := [dash, dash]

/-- A text up to its first equals sign and, if there is one, the text
behind it. -/
def splitEquals (t : Text) : Text × Option Text :=
  match t.dropWhile (· ≠ equalsSign) with
  | [] => (t, none)
  | _ :: rest => (t.takeWhile (· ≠ equalsSign), some rest)

/-- An argument behind an equals sign. -/
def attachedByEquals (argument : Option Text) : Option Attached := argument.map (⟨true, ·⟩)

/-- Digits, at least one of them. -/
def areDigits (t : Text) : Bool := !t.isEmpty && t.all CodePoint.isDecimalDigit

/-- The digits of a number, with or without a point. -/
def isUnsignedNumber (t : Text) : Bool :=
  areDigits t ||
    match t.dropWhile CodePoint.isDecimalDigit with
    | c :: rest => c = CodePoint.ofChar '.' && areDigits rest
    | [] => false

/-- A dash and a number. A line end may follow. -/
def isNegativeNumber (t : Text) : Bool :=
  match t with
  | c :: rest =>
    c = dash &&
      (isUnsignedNumber rest ||
        rest.getLast? = some CodePoint.lineFeed && isUnsignedNumber rest.dropLast)
  | [] => false

/-- The options that an argument may stand for, when no option has it for a
name: those whose long name it begins, or the one whose short name begins
it. -/
def candidates (t : Text) : List (Text × Flag × Bool × Option Attached) :=
  if twoDashes.isPrefixOf t then
    let (name, argument) := splitEquals t
    (Flag.names.filter fun p => name.isPrefixOf p.1).map fun p =>
      (p.1, p.2, false, attachedByEquals argument)
  else
    (Flag.names.filter fun p => p.1 = t.take 2).map fun p =>
      (p.1, p.2, true, some ⟨false, t.drop 2⟩)

/-- Whether a name is a short one. -/
def isShort (name : Text) : Bool := !twoDashes.isPrefixOf name

/-- What an argument is, before any two dashes on their own. A dash alone,
a negative number and an argument with a space are plain, unless they name
an option. -/
def classify (t : Text) : Except Misuse Word :=
  if t.head? ≠ some dash then .ok (.plain t)
  else
    match Flag.ofName? t with
    | some flag => .ok (.option flag (isShort t) none)
    | none =>
      if t.length = 1 then .ok (.plain t)
      else
        let (name, argument) := splitEquals t
        match argument, Flag.ofName? name with
        | some a, some flag => .ok (.option flag (isShort name) (some ⟨true, a⟩))
        | _, _ =>
          match candidates t with
          | [(_, flag, short, attached)] => .ok (.option flag short attached)
          | [] =>
            if isNegativeNumber t ∨ CodePoint.ofChar ' ' ∈ t then .ok (.plain t)
            else .ok (.unknown t)
          | several => .error (.ambiguous t (several.map Prod.fst))

/-- The words of a command line. After two dashes all are plain. -/
def words : List Text → Except Misuse (List Word)
  | [] => .ok []
  | t :: rest =>
    if t = twoDashes then .ok (.separator :: rest.map .plain)
    else do
      let word ← classify t
      return word :: (← words rest)

end Lectern.Cli
