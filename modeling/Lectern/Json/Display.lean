-- The text of a JSON value inside a message.
import Lectern.Json.Value
import Lectern.Number.Shortest
import Lectern.Text.Quoted

namespace Lectern.Json

mutual

/-- A value as a message shows it, with every text of it quoted. -/
def Value.display : Value → Text
  | .null => Text.ofString "None"
  | .bool true => Text.ofString "True"
  | .bool false => Text.ofString "False"
  | .int n => Text.ofInt n
  | .float x => x.text
  | .string t => t.quoted
  | .array items =>
    Text.ofString "[" ++ Text.joinWith (Text.ofString ", ") (displayItems items)
      ++ Text.ofString "]"
  | .object fields =>
    Text.ofString "\x7b" ++ Text.joinWith (Text.ofString ", ") (displayFields fields)
      ++ Text.ofString "\x7d"

/-- The items of an array, each as a message shows it. -/
def displayItems : List Value → List Text
  | [] => []
  | v :: rest => v.display :: displayItems rest

/-- The fields of an object, each as a message shows it. -/
def displayFields : List (Text × Value) → List Text
  | [] => []
  | (name, v) :: rest => (name.quoted ++ Text.ofString ": " ++ v.display) :: displayFields rest

end

end Lectern.Json
