-- Records: the general form of a node as a JSON object, with its kind under
-- `t` and its contents under `c`. What a node does not keep, such as the
-- classes of a header, is written empty.
import Lectern.Json.Value
import Lectern.Node.Basic

namespace Lectern

open Json (Value Fields)

namespace Node

/-- The name of the field that holds the kind. -/
def tagField : Text := Text.ofString "t"

/-- The name of the field that holds the contents. -/
def contentsField : Text := Text.ofString "c"

/-- A record without contents. -/
def bareRecord (tag : Tag) : Value := .object [(tagField, .string tag.name)]

/-- A record with contents. -/
def record (tag : Tag) (contents : Value) : Value :=
  .object [(tagField, .string tag.name), (contentsField, contents)]

/-- The classes that a code block is written with: its language, unless it
has none. -/
def classes (language : Option Text) : List Value :=
  match language with
  | some l => if l.isEmpty then [] else [.string l]
  | none => []

mutual

/-- The record of a node. -/
def toRecord : Node → Value
  | .str t => record .str (.string t)
  | .space => bareRecord .space
  | .rule => bareRecord .rule
  | .rawInline format raw => record .rawInline (.array [.string format, .string raw])
  | .rawBlock none raw => record .rawBlock (.string raw)
  | .rawBlock (some format) raw => record .rawBlock (.array [.string format, .string raw])
  | .codeBlock language code =>
    record .codeBlock
      (.array [.array [.string [], .array (classes language), .array []], .string code])
  | .header level identifier contents =>
    record .header
      (.array [.int level.val, .array [.string identifier, .array [], .array []],
        .array (toRecords contents)])
  | .styled style contents => record (.styled style) (.array (toRecords contents))
  | .bullets items => record .bullets (.array (itemRecords items))

/-- The records of a run of nodes. -/
def toRecords : List Node → List Value
  | [] => []
  | n :: rest => n.toRecord :: toRecords rest

/-- The items of a bullet list, each a list of one record. -/
def itemRecords : List (List Node) → List Value
  | [] => []
  | contents :: rest =>
    .array [record (.styled .plain) (.array (toRecords contents))] :: itemRecords rest

end

theorem toRecords_eq (ns : List Node) : toRecords ns = ns.map toRecord := by
  induction ns with
  | nil => rfl
  | cons n ns ih => simp [toRecords, ih]

theorem itemRecords_eq (items : List (List Node)) :
    itemRecords items = items.map fun contents => .array [toRecord (.styled .plain contents)] := by
  induction items with
  | nil => rfl
  | cons contents items ih => simp [itemRecords, toRecord, ih]

end Node

end Lectern
