-- Documents: the metadata, which nothing looks into, and the nodes at the
-- top. A payload is the general form of a document, a list of the metadata
-- and the records. Reading fails with a fault at records that stand too deep
-- inside each other, and writing breaks off at such nodes.
import Lectern.Node.Build
import Lectern.Node.Calls

namespace Lectern

open Json (Value Fields)

/-- A document. -/
structure Document where
  metadata : Fields
  blocks : List Node

namespace Document

/-- Why a payload is not a document. -/
inductive Fault
  | notPair
  | metadataNotObject
  | blocksNotArray
  | node (fault : Node.Fault)
deriving DecidableEq

/-- A fault in words. -/
def Fault.message : Fault → Text
  | .notPair => Text.ofString "expected a two-element [metadata, blocks] array"
  | .metadataNotObject => Text.ofString "document metadata must be a JSON object"
  | .blocksNotArray => Text.ofString "document blocks must be a JSON array"
  | .node fault => fault.message

/-- The metadata and the records of a payload. -/
def openPayload (payload : Value) : Except Fault (Fields × List Value) :=
  match payload with
  | .array [.object metadata, .array records] => .ok (metadata, records)
  | .array [.object _, _] => .error .blocksNotArray
  | .array [_, _] => .error .metadataNotObject
  | _ => .error .notPair

/-- The document of a payload. -/
def ofPayload (payload : Value) : Except Fault Document := do
  let (metadata, records) ← openPayload payload
  match Node.buildAll records with
  | .ok blocks => return ⟨metadata, blocks⟩
  | .error fault => throw (.node fault)

/-- The payload that holds these records. -/
def payload (metadata : Value) (records : List Value) : Value := .array [metadata, .array records]

/-- Writing gets through the nodes of a document. -/
def Writes (d : Document) : Prop := Node.Fits Tag.writeCalls 0 d.blocks

instance (d : Document) : Decidable d.Writes :=
  inferInstanceAs (Decidable (Node.Fits Tag.writeCalls 0 d.blocks))

/-- The payload of a document, if writing gets through. -/
def toPayload? (d : Document) : Option Value :=
  if d.Writes then some (payload (.object d.metadata) (d.blocks.map Node.toRecord)) else none

end Document

end Lectern
