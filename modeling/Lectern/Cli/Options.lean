-- What a command line asks for. The words are read from left to right, and
-- the first that makes no sense, or the first call for help, ends the
-- reading.
import Lectern.Cli.Flag

namespace Lectern.Cli

/-- What a command line asks for. -/
structure Options where
  input : Text
  output : Text
  rawBlocks : RawPolicy
  verbose : Bool

/-- The name that stands for the standard input and the standard output. -/
def standardStream : Text := [dash]

/-- What holds unless the command line says otherwise. -/
def Options.standard : Options := ⟨standardStream, standardStream, .passthrough, false⟩

/-- Why a command line asks for no conversion. -/
inductive Stop
  | help
  | misuse (m : Misuse)
deriving DecidableEq

/-! ## A word of options -/

/-- The end of a word of options. -/
inductive WordEnd
  /-- The last option has its argument. -/
  | withArgument (flag : Flag) (argument : Text)
  /-- The last option has no argument in this word. -/
  | bare (flag : Flag)
  /-- The rest is no option. -/
  | unknown (t : Text)

/-- The short option of a letter. -/
def Flag.ofLetter? (c : CodePoint) : Option Flag := ofName? [dash, c]

/-- The options of a word from one with something attached on. Short
options without arguments may stand together in one word. The result lists
the options before the last. -/
def chain (flag : Flag) (short byEquals : Bool) : Text → Except Misuse (List Flag × WordEnd)
  | [] =>
    if flag.takesArgument then .ok ([], .withArgument flag [])
    else .error (.unwantedArgument flag [])
  | c :: rest =>
    if flag.takesArgument then .ok ([], .withArgument flag (c :: rest))
    else if !short || byEquals || c = dash then .error (.unwantedArgument flag (c :: rest))
    else
      match Flag.ofLetter? c with
      | none => .ok ([flag], .unknown (dash :: c :: rest))
      | some next =>
        match rest with
        | [] => .ok ([flag], .bare next)
        | d :: more => do
          let (flags, wordEnd) ←
            if d = equalsSign then chain next true true more
            else chain next true false (d :: more)
          return (flag :: flags, wordEnd)

/-! ## All words -/

/-- What is read of a command line. -/
structure Progress where
  options : Options
  /-- The input, once there is one. -/
  input : Option Text
  /-- The words that fit nowhere, last first. -/
  left : List Text

namespace Progress

/-- Nothing is read. -/
def start : Progress := ⟨.standard, none, []⟩

/-- A word that fits nowhere. -/
def leave (p : Progress) (t : Text) : Progress := { p with left := t :: p.left }

/-- A plain word: the input, if there is none. -/
def plain (p : Progress) (t : Text) : Progress :=
  if p.input.isSome then p.leave t else { p with input := some t }

/-- An option takes effect. -/
def take (p : Progress) (flag : Flag) (argument : Text) : Except Stop Progress :=
  match flag with
  | .help => .error .help
  | .verbose => .ok { p with options := { p.options with verbose := true } }
  | .output => .ok { p with options := { p.options with output := argument } }
  | .rawBlocks =>
    match RawPolicy.ofName? argument with
    | some policy => .ok { p with options := { p.options with rawBlocks := policy } }
    | none => .error (.misuse (.invalidChoice argument))

/-- Options without arguments take effect, in order. -/
def takeAll (p : Progress) (flags : List Flag) : Except Stop Progress :=
  flags.foldlM (fun p flag => p.take flag []) p

end Progress

/-- A misuse ends the reading. -/
def refuse {α : Type} (e : Except Misuse α) : Except Stop α :=
  match e with
  | .ok a => .ok a
  | .error m => .error (.misuse m)

/-- What a word of options begins with, and how it ends. -/
def wordOptions (flag : Flag) (short : Bool) (attached : Option Attached) :
    Except Misuse (List Flag × WordEnd) :=
  match attached with
  | none => .ok ([], .bare flag)
  | some a => chain flag short a.byEquals a.argument

/-- Reads words. An option without its argument takes the next word, if it
is plain. Two dashes are dropped next to the input, and left over
elsewhere. -/
def consume (p : Progress) : List Word → Except Stop Progress
  | [] => .ok p
  | .unknown t :: rest => consume (p.leave t) rest
  | .separator :: rest =>
    if p.input.isSome then consume (p.leave twoDashes) rest else consume p rest
  | .plain t :: .separator :: rest =>
    if p.input.isSome then consume ((p.plain t).leave twoDashes) rest
    else consume (p.plain t) rest
  | .plain t :: rest => consume (p.plain t) rest
  | .option flag short attached :: rest =>
    match wordOptions flag short attached with
    | .error m => .error (.misuse m)
    | .ok (before, .withArgument last argument) => do
      consume (← (← p.takeAll before).take last argument) rest
    | .ok (before, .unknown t) => do consume (← (p.leave t).takeAll before) rest
    | .ok (before, .bare last) =>
      if last.takesArgument then
        match rest with
        | .plain t :: rest => do consume (← (← p.takeAll before).take last t) rest
        | _ => .error (.misuse (.missingArgument last))
      else do consume (← (← p.takeAll before).take last []) rest

/-- What a command line asks for. -/
def Options.parse (arguments : List Text) : Except Stop Options := do
  let p ← consume .start (← refuse (words arguments))
  if p.left.isEmpty then return { p.options with input := p.input.getD standardStream }
  else throw (.misuse (.unrecognized p.left.reverse))

end Lectern.Cli
