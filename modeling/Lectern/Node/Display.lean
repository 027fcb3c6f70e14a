-- The text of a node inside a message: the name of its class, and its
-- fields in a fixed order.
import Lectern.Node.Basic
import Lectern.Text.Quoted

namespace Lectern

/-- The name of the class of a kind. -/
def Tag.className : Tag → Text
  | .styled .para => Text.ofString "Paragraph"
  | .styled .plain => Text.ofString "PlainItem"
  | tag => tag.name

namespace Node

/-- A field in a message. -/
def shownField (name : String) (shown : Text) : Text :=
  Text.ofString name ++ Text.ofString "=" ++ shown

/-- The field that holds the kind, in a message. -/
def shownTag (tag : Tag) : Text := shownField "tag" tag.name.quoted

/-- A text that may be missing, in a message. -/
def shownOption : Option Text → Text
  | some t => t.quoted
  | none => Text.ofString "None"

/-- A list in a message. -/
def shownList (items : List Text) : Text :=
  Text.ofString "[" ++ Text.joinWith (Text.ofString ", ") items ++ Text.ofString "]"

/-- A value of a class in a message. -/
def shownInstance (tag : Tag) (fields : List Text) : Text :=
  tag.className ++ Text.ofString "(" ++ Text.joinWith (Text.ofString ", ") fields
    ++ Text.ofString ")"

mutual

/-- The fields of a node as a message shows them. -/
def shownFields : Node → List Text
  | .str t => [shownTag .str, shownField "text" t.quoted]
  | .space => [shownTag .space]
  | .rule => [shownTag .rule]
  | .rawInline format raw =>
    [shownTag .rawInline, shownField "format" format.quoted, shownField "raw" raw.quoted]
  | .rawBlock format raw =>
    [shownTag .rawBlock, shownField "format" (shownOption format), shownField "raw" raw.quoted]
  | .codeBlock language code =>
    [shownTag .codeBlock, shownField "language" (shownOption language),
      shownField "code" code.quoted]
  | .header level identifier contents =>
    [shownField "contents" (shownList (displayAll contents)), shownTag .header,
      shownField "level" (Text.ofNat level.val), shownField "identifier" identifier.quoted]
  | .styled style contents =>
    [shownField "contents" (shownList (displayAll contents)), shownTag (.styled style)]
  | .bullets items =>
    [shownTag .bullets, shownField "items" (shownList (displayItems items))]

/-- The nodes of a run as a message shows them. -/
def displayAll : List Node → List Text
  | [] => []
  | n :: rest => shownInstance n.tag n.shownFields :: displayAll rest

/-- The items of a bullet list as a message shows them. -/
def displayItems : List (List Node) → List Text
  | [] => []
  | contents :: rest =>
    shownInstance (.styled .plain)
      [shownField "contents" (shownList (displayAll contents)), shownTag (.styled .plain)]
      :: displayItems rest

end

/-- A node as a message shows it. -/
def display (n : Node) : Text := shownInstance n.tag n.shownFields

end Node

end Lectern
