-- What a conversion reports while it works.
import Lectern.Conversion
import Lectern.Node.Display
import Lectern.Node.Dropped

namespace Lectern

/-! ## Entries -/

/-- How much an entry of the log matters. -/
inductive Severity
  | debug
  | info
  | error
deriving DecidableEq

/-- The name of a severity. -/
def Severity.name : Severity → Text
  | .debug => Text.ofString "DEBUG"
  | .info => Text.ofString "INFO"
  | .error => Text.ofString "ERROR"

/-- Something that happened. -/
inductive Event
  /-- Blocks of an item were dropped. -/
  | dropped (blocks : Nat)
  | reconstructed (nodes : Nat)
  | segmented (slides : Nat)
  /-- A raw block was written as it is. -/
  | passedThrough (rawBlock : Node)
  | rendered (slides : Nat)
  | converted (nodes slides : Nat)
  | wrote (slides : Nat) (path : Text)
  /-- The input cannot be read, for a reason. -/
  | unreadable (reason : Text)
  /-- The conversion failed, for a reason. -/
  | failed (reason : Text)

namespace Event

/-- How much an event matters. -/
def severity : Event → Severity
  | .dropped _ | .reconstructed _ | .segmented _ | .passedThrough _ | .rendered _ => .debug
  | .converted _ _ | .wrote _ _ => .info
  | .unreadable _ | .failed _ => .error

/-- The part of the program that an event belongs to. -/
def source : Event → Text
  | .dropped _ | .reconstructed _ => Text.ofString "ctxslides.pandoc.factory"
  | .segmented _ => Text.ofString "ctxslides.services.segmenter"
  | .passedThrough _ | .rendered _ => Text.ofString "ctxslides.renderer.context_renderer"
  | .converted _ _ => Text.ofString "ctxslides.services.converter"
  | .wrote _ _ | .unreadable _ | .failed _ => Text.ofString "ctxslides.cli"

/-- An event in words. -/
def message : Event → Text
  | .dropped blocks =>
    Text.ofString "Dropping " ++ Text.ofNat blocks
      ++ Text.ofString " extra block(s) from bullet list item"
  | .reconstructed nodes =>
    Text.ofString "Reconstructed " ++ Text.ofNat nodes ++ Text.ofString " top-level nodes"
  | .segmented slides =>
    Text.ofString "Segmented document into " ++ Text.ofNat slides ++ Text.ofString " slides"
  | .passedThrough rawBlock =>
    Text.ofString "Passing RawBlock through verbatim: " ++ rawBlock.display
  | .rendered slides => Text.ofString "Rendered " ++ Text.ofNat slides ++ Text.ofString " slides"
  | .converted nodes slides =>
    Text.ofString "Converted " ++ Text.ofNat nodes ++ Text.ofString " top-level nodes into "
      ++ Text.ofNat slides ++ Text.ofString " slides"
  | .wrote slides path =>
    Text.ofString "Wrote " ++ Text.ofNat slides ++ Text.ofString " slides to " ++ path
  | .unreadable reason => Text.ofString "Cannot read input: " ++ reason
  | .failed reason => Text.ofString "Conversion failed: " ++ reason

/-- An event as a line of the log. -/
def line (e : Event) : Text :=
  e.severity.name ++ Text.ofString " " ++ e.source ++ Text.ofString ": " ++ e.message
    ++ [CodePoint.lineFeed]

end Event

/-! ## The log of a conversion -/

namespace Conversion

/-- The events from building the nodes of records. -/
def buildEvents (records : List Json.Value) : List Event :=
  (Node.seenUntil (fun r => (Node.build r).isOk) (Node.dropped Node.depthLimit) records).map
    Event.dropped

/-- The events from writing a document as a deck, up to the point where
rendering breaks off. -/
def deckEvents (d : Document) : List Event :=
  let slides := Slide.segment d.blocks
  let raws := (Node.reached Tag.renderCalls d.blocks).filter fun n => n.tag = .rawBlock
  [.segmented slides.length] ++ raws.map Event.passedThrough ++
    if ∀ s ∈ slides, s.Fits then
      [.rendered slides.length, .converted d.blocks.length slides.length]
    else []

/-- The events of a conversion, up to the point where it fails. -/
def events (config : Config) (t : Text) : List Event :=
  match Json.parse t with
  | .error _ => []
  | .ok payload =>
    match Document.openPayload payload with
    | .error _ => []
    | .ok (_, records) =>
      buildEvents records ++
        match Document.ofPayload payload with
        | .error _ => []
        | .ok d =>
          .reconstructed d.blocks.length ::
            if config.rawBlocks = .fail ∧ holdsRawBlock d.blocks then [] else deckEvents d

end Conversion

end Lectern
