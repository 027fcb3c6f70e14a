-- From records to nodes. A record is accepted if its kind is known and its
-- contents have the shape of that kind, at every depth. Otherwise the fault
-- is the first that a reader meets from left to right, who looks at the
-- shape of a record before the records inside it.
import Lectern.Node.Record
import Lectern.Text.Quoted

namespace Lectern

open Json (Value Fields)

namespace Node

/-! ## Faults -/

/-- Why a value is not the record of a node. -/
inductive Fault
  /-- It is no object with a kind. The text names the kind of value it is. -/
  | notRecord (kind : Text)
  | unknownTag (name : Text)
  /-- The contents do not have the shape of the kind. -/
  | misshapen (tag : Tag)
  /-- The records stand inside each other too deeply. -/
  | tooDeep
deriving DecidableEq

/-- The shape of the contents of each kind, in words. -/
def shapeText : Tag → Text
  | .styled _ => Text.ofString "a list of node records"
  | .str => Text.ofString "a string"
  | .space | .rule => Text.ofString "no contents"
  | .rawBlock => Text.ofString "a string or a [format, text] pair"
  | .rawInline => Text.ofString "a [format, text] pair of strings"
  | .header => Text.ofString "[level, [identifier, ...], [node records]]"
  | .codeBlock => Text.ofString "[[identifier, [language, ...], attributes], code]"
  | .bullets =>
    Text.ofString "a list of items, each a list starting with a Plain or Para record"

/-- The shape of a record, in words. -/
def recordText : Text := Text.ofString "a \x7b't': tag, 'c': contents\x7d record"

namespace Fault

/-- What a fault speaks of: a kind, or the name that stands for one. -/
def subject : Fault → Text
  | .notRecord kind => kind
  | .unknownTag name => name
  | .misshapen tag => tag.name
  | .tooDeep => []

/-- The shape that was expected, if the fault is one of shape. -/
def expected? : Fault → Option Text
  | .notRecord _ => some recordText
  | .misshapen tag => some (shapeText tag)
  | .unknownTag _ | .tooDeep => none

/-- A fault in words. -/
def message (f : Fault) : Text :=
  match f with
  | .unknownTag name => Text.ofString "unknown node kind: " ++ name.quoted
  | .tooDeep => Text.ofString "document tree is nested too deeply"
  | .notRecord _ | .misshapen _ =>
    Text.ofString "malformed " ++ f.subject.quoted ++ Text.ofString " node: expected "
      ++ f.expected?.getD []

end Fault

/-! ## Shapes -/

/-- The kind and the contents of a record. Contents that are not given
count as null. -/
def openRecord (v : Value) : Except Fault (Text × Value) :=
  match v with
  | .object fields =>
    match Fields.get? fields tagField with
    | some (.string name) => .ok (name, (Fields.get? fields contentsField).getD .null)
    | _ => .error (.notRecord v.kindName)
  | _ => .error (.notRecord v.kindName)

/-- The records that a node of this kind holds, from a value that must be
a list. -/
def recordsOf (tag : Tag) (v : Value) : Except Fault (List Value) :=
  match v with
  | .array records => .ok records
  | _ => .error (.misshapen tag)

/-- Two texts in a list. -/
def textPair? : Value → Option (Text × Text)
  | .array [.string a, .string b] => some (a, b)
  | _ => none

/-- The level, the identifier and the inlines of a header. -/
def headerParts? : Value → Option (Int × Text × Value)
  | .array [.int level, .array (.string identifier :: _), inlines] =>
    some (level, identifier, inlines)
  | _ => none

/-- The text of a value that is one. -/
def text? : Value → Option Text
  | .string t => some t
  | _ => none

/-- The language that classes name: the first class, unless it is empty. -/
def language? : List Text → Option Text
  | [] => none
  | c :: _ => if c.isEmpty then none else some c

/-- The language and the code of a code block. -/
def codeParts? : Value → Option (Option Text × Text)
  | .array [.array [_, .array classes, _], .string code] =>
    (classes.mapM text?).map fun classes => (language? classes, code)
  | _ => none

/-- The style and the contents of the block that opens an item. Only two
styles may. -/
def itemBlock? : Value → Option (Style × Value)
  | .object fields =>
    let contents := (Fields.get? fields contentsField).getD .null
    match Fields.get? fields tagField with
    | some (.string name) =>
      if name = (Tag.styled .plain).name then some (.plain, contents)
      else if name = (Tag.styled .para).name then some (.para, contents)
      else none
    | _ => none
  | _ => none

/-- The block that opens an item, and how many blocks come after it. -/
def openItem? : Value → Option (Value × Nat)
  | .array (block :: more) => some (block, more.length)
  | _ => none

/-! ## Building -/

/-- The nodes of an item: those of its first block. The blocks after it
are not looked at. -/
def ofItem (build : Value → Except Fault Node) (item : Value) : Except Fault (List Node) :=
  match (openItem? item).bind fun opened => itemBlock? opened.1 with
  | some (style, contents) => do (← recordsOf (.styled style) contents).mapM build
  | none => .error (.misshapen .bullets)

/-- The node with a kind and contents. `build` makes the nodes inside it.
The level of a header is looked at after the nodes inside the header. -/
def ofContents (build : Value → Except Fault Node) (tag : Tag) (c : Value) : Except Fault Node :=
  match tag with
  | .str =>
    match c with
    | .string t => .ok (.str t)
    | _ => .error (.misshapen .str)
  | .space => .ok .space
  | .rule => .ok .rule
  | .rawBlock =>
    match c, textPair? c with
    | .string raw, _ => .ok (.rawBlock none raw)
    | _, some (format, raw) => .ok (.rawBlock (some format) raw)
    | _, none => .error (.misshapen .rawBlock)
  | .rawInline =>
    match textPair? c with
    | some (format, raw) => .ok (.rawInline format raw)
    | none => .error (.misshapen .rawInline)
  | .header =>
    match headerParts? c with
    | some (level, identifier, inlines) => do
      let contents ← (← recordsOf .header inlines).mapM build
      match Level.ofInt? level with
      | some level => return .header level identifier contents
      | none => throw (.misshapen .header)
    | none => .error (.misshapen .header)
  | .codeBlock =>
    match codeParts? c with
    | some (language, code) => .ok (.codeBlock language code)
    | none => .error (.misshapen .codeBlock)
  | .styled style => do return .styled style (← (← recordsOf (.styled style) c).mapM build)
  | .bullets => do return .bullets (← (← recordsOf .bullets c).mapM (ofItem build))

/-- The node of a record, for records that stand at most `depth` deep
inside each other. -/
def ofRecord : Nat → Value → Except Fault Node
  | 0, _ => .error .tooDeep
  | depth + 1, v => do
    let (name, c) ← openRecord v
    match Tag.ofName? name with
    | some tag => ofContents (fun r => ofRecord depth r) tag c
    | none => .error (.unknownTag name)

/-- How deep records may stand inside each other. Building keeps four calls
open at each, and of the thousand that can be open the caller has some, so
the limit is exact to within two for a program that starts with the caller,
and less for one that stands deeper. -/
def depthLimit : Nat := 246

/-- The node of a record. -/
def build (v : Value) : Except Fault Node := ofRecord depthLimit v

/-- The nodes of records, in order. -/
def buildAll (records : List Value) : Except Fault (List Node) := records.mapM build

end Node

end Lectern
