-- From the text of a document to the text of a deck.
import Lectern.Document
import Lectern.Json.Reader
import Lectern.Node.Walk
import Lectern.Slide.Deck

namespace Lectern

open Json (Value)

/-- A conversion that is done. -/
structure Conversion where
  document : Document
  slides : List Slide
  output : Text

namespace Conversion

/-- Why a conversion gives no deck. -/
inductive Fault
  | json (fault : Json.Fault)
  | document (fault : Document.Fault)
  /-- There is a raw block, and the settings refuse it. -/
  | rawBlock
  /-- Rendering breaks off. -/
  | overflow
deriving DecidableEq

/-- A fault in words. -/
def Fault.message : Fault → Text
  | .json fault => fault.message
  | .document fault => fault.message
  | .rawBlock =>
    Text.ofString "unsupported " ++ Tag.rawBlock.name.quoted
      ++ Text.ofString " node: raw blocks are disabled (raw_block='fail')"
  | .overflow => Text.ofString "maximum recursion depth exceeded"

/-- Whether a raw block stands anywhere among nodes. -/
def holdsRawBlock (nodes : List Node) : Bool :=
  (Node.walk nodes).any fun n => n.tag = .rawBlock

/-- The deck of a document, unless the settings refuse it or rendering breaks
off. -/
def ofDocument (config : Config) (d : Document) : Except Fault Conversion :=
  if config.rawBlocks = .fail ∧ holdsRawBlock d.blocks then .error .rawBlock
  else
    let slides := Slide.segment d.blocks
    match config.render? slides with
    | some output => .ok ⟨d, slides, output⟩
    | none => .error .overflow

/-- The deck of a payload. -/
def ofPayload (config : Config) (payload : Value) : Except Fault Conversion :=
  match Document.ofPayload payload with
  | .error fault => .error (.document fault)
  | .ok d => ofDocument config d

/-- The deck of a JSON text. -/
def ofText (config : Config) (t : Text) : Except Fault Conversion :=
  match Json.parse t with
  | .error fault => .error (.json fault)
  | .ok payload => ofPayload config payload

end Conversion

end Lectern
