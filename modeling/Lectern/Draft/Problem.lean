-- Problems: what is wrong with a draft, and where.
import Lectern.Draft.Basic

namespace Lectern.Draft

/-- What is wrong with a value. -/
inductive Complaint
  | missing
  | notString
  | notInteger
  | belowOne
  /-- The kind is given and is not this one. -/
  | wrongTag (expected : Tag)
  | notList
  | notObject
  /-- It is neither a node nor an object of fields. -/
  | notFields
  | noTag
  /-- The kind is given, as shown here, and there is no such kind. -/
  | unknownTag (shown : Text)
  /-- It is no item of a bullet list. -/
  | notItem
  /-- The value is fixed once it is made. -/
  | frozen
deriving DecidableEq

namespace Complaint

/-- A short name for each complaint. -/
def code : Complaint → Text
  | .missing => Text.ofString "missing"
  | .notString => Text.ofString "string_type"
  | .notInteger => Text.ofString "int_type"
  | .belowOne => Text.ofString "greater_than_equal"
  | .wrongTag _ => Text.ofString "literal_error"
  | .notList => Text.ofString "list_type"
  | .notObject => Text.ofString "dict_type"
  | .notFields => Text.ofString "model_attributes_type"
  | .noTag => Text.ofString "union_tag_not_found"
  | .unknownTag _ => Text.ofString "union_tag_invalid"
  | .notItem => Text.ofString "model_type"
  | .frozen => Text.ofString "frozen_instance"

/-- A text between apostrophes. -/
def inApostrophes (t : Text) : Text := CodePoint.apostrophe :: t ++ [CodePoint.apostrophe]

/-- A complaint in words. -/
def message : Complaint → Text
  | .missing => Text.ofString "Field required"
  | .notString => Text.ofString "Input should be a valid string"
  | .notInteger => Text.ofString "Input should be a valid integer"
  | .belowOne => Text.ofString "Input should be greater than or equal to 1"
  | .wrongTag expected => Text.ofString "Input should be " ++ inApostrophes expected.name
  | .notList => Text.ofString "Input should be a valid list"
  | .notObject => Text.ofString "Input should be a valid dictionary"
  | .notFields =>
    Text.ofString "Input should be a valid dictionary or object to extract fields from"
  | .noTag => Text.ofString "Unable to extract tag using discriminator 'tag'"
  | .unknownTag shown =>
    Text.ofString "Input tag " ++ inApostrophes shown
      ++ Text.ofString " found using 'tag' does not match any of the expected tags: "
      ++ Text.joinWith (Text.ofString ", ") (Tag.all.map fun tag => inApostrophes tag.name)
  | .notItem =>
    Text.ofString "Input should be a valid dictionary or instance of "
      ++ (Tag.styled .plain).className
  | .frozen => Text.ofString "Instance is frozen"

end Complaint

/-- A step into a draft. -/
inductive Step
  | name (t : Text)
  | index (i : Nat)
deriving DecidableEq

/-- A complaint and the way to the value that it is about. -/
structure Problem where
  complaint : Complaint
  location : List Step
deriving DecidableEq

/-- What is made of a draft, or all the problems of the draft in order. -/
abbrev Checked (α : Type) := Except (List Problem) α

namespace Checked

variable {α β : Type}

/-- A single problem with the value at hand. -/
def fail (complaint : Complaint) : Checked α := .error [⟨complaint, []⟩]

/-- A result one step further inside. -/
def under (step : Step) (c : Checked α) : Checked α :=
  match c with
  | .ok a => .ok a
  | .error ps => .error (ps.map fun p => { p with location := step :: p.location })

/-- Two results together. The problems of the first come first. -/
def both (a : Checked α) (b : Checked β) : Checked (α × β) :=
  match a, b with
  | .ok x, .ok y => .ok (x, y)
  | .ok _, .error qs => .error qs
  | .error ps, .ok _ => .error ps
  | .error ps, .error qs => .error (ps ++ qs)

end Checked

end Lectern.Draft
