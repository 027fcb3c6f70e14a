-- Drafts: values from which nodes are made field by field. A draft is JSON
-- data in which nodes that are made already may stand.
import Lectern.Json.Display
import Lectern.Node.Display
import Lectern.Node.Record

namespace Lectern

/-- A value given for a field. -/
inductive Draft
  | null
  | bool (b : Bool)
  | int (n : Int)
  | float (x : Binary64)
  | string (t : Text)
  | array (items : List Draft)
  | object (fields : List (Text × Draft))
  | node (n : Node)

namespace Draft

/-- Fields by name. -/
abbrev Fields := List (Text × Draft)

/-- The value of a field. -/
def get? (fields : Fields) (name : String) : Option Draft := fields.lookup (Text.ofString name)

/-- A value found under a name is smaller than the fields it is found in. -/
theorem sizeOf_get? {fields : Fields} {name : String} {d : Draft}
    (h : get? fields name = some d) : sizeOf d < sizeOf fields :=
  Json.Fields.sizeOf_lookup h

mutual

/-- A draft as JSON data. A node in it counts as its record. -/
def toValue : Draft → Json.Value
  | .null => .null
  | .bool b => .bool b
  | .int n => .int n
  | .float x => .float x
  | .string t => .string t
  | .array items => .array (itemValues items)
  | .object fields => .object (fieldValues fields)
  | .node n => n.toRecord

/-- The items of a list as JSON data. -/
def itemValues : List Draft → List Json.Value
  | [] => []
  | d :: rest => d.toValue :: itemValues rest

/-- Fields as JSON data. -/
def fieldValues : List (Text × Draft) → List (Text × Json.Value)
  | [] => []
  | (name, d) :: rest => (name, d.toValue) :: fieldValues rest

end

mutual

/-- A draft as a message shows it, with every text of it quoted. -/
def display : Draft → Text
  | .null => Json.Value.null.display
  | .bool b => (Json.Value.bool b).display
  | .int n => Text.ofInt n
  | .float x => x.text
  | .string t => t.quoted
  | .array items => Node.shownList (displayItems items)
  | .object fields =>
    Text.ofString "\x7b" ++ Text.joinWith (Text.ofString ", ") (displayFields fields)
      ++ Text.ofString "\x7d"
  | .node n => n.display

/-- The items of a list as a message shows them. -/
def displayItems : List Draft → List Text
  | [] => []
  | d :: rest => d.display :: displayItems rest

/-- Fields as a message shows them. -/
def displayFields : List (Text × Draft) → List Text
  | [] => []
  | (name, d) :: rest => (name.quoted ++ Text.ofString ": " ++ d.display) :: displayFields rest

end

/-- A draft on its own in a message. A text stands there without quote
marks, and a node without its class. -/
def shown : Draft → Text
  | .string t => t
  | .node n => Text.joinWith (Text.ofString " ") n.shownFields
  | d => d.display

end Draft

end Lectern
