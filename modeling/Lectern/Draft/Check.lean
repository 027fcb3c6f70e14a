-- From drafts to nodes. The fields are looked at in a fixed order, and the
-- problems of all of them are reported.
import Lectern.Document
import Lectern.Draft.Problem

namespace Lectern.Draft

open Checked (both fail under)

/-! ## Single fields -/

/-- The step to a field. -/
def Step.field (name : String) : Step := .name (Text.ofString name)

/-- A text that must be given. -/
def textField (fields : Fields) (name : String) : Checked Text :=
  under (.field name) <|
    match get? fields name with
    | none => fail .missing
    | some (.string t) => .ok t
    | some _ => fail .notString

/-- A text that stands for another when it is not given. -/
def textFieldOr (otherwise : Text) (fields : Fields) (name : String) : Checked Text :=
  match get? fields name with
  | none => .ok otherwise
  | some _ => textField fields name

/-- A text that may be missing or null. -/
def optionalTextField (fields : Fields) (name : String) : Checked (Option Text) :=
  match get? fields name with
  | none | some .null => .ok none
  | some _ => (textField fields name).map some

/-- The kind, which need not be given, but must be this one if it is. -/
def tagField (tag : Tag) (fields : Fields) : Checked Unit :=
  match get? fields "tag" with
  | none => .ok ()
  | some (.string t) => if t = tag.name then .ok () else under (.field "tag") (fail (.wrongTag tag))
  | some _ => under (.field "tag") (fail (.wrongTag tag))

/-- The level of a header. -/
def levelField (fields : Fields) : Checked Level :=
  under (.field "level") <|
    match get? fields "level" with
    | none => fail .missing
    | some (.int n) =>
      match Level.ofInt? n with
      | some level => .ok level
      | none => fail .belowOne
    | some _ => fail .notInteger

/-! ## Nodes -/

mutual

/-- A node from a draft. The draft is a node already, or it names its kind
and has the fields of that kind. -/
def toNode (d : Draft) : Checked Node :=
  match d with
  | .node n => .ok n
  | .object fields =>
    match get? fields "tag" with
    | none => fail .noTag
    | some given =>
      let tag? :=
        match given with
        | .string t => Tag.ofName? t
        | _ => none
      match tag? with
      | some tag => under (.name tag.name) (ofFields tag fields)
      | none => fail (.unknownTag given.shown)
  | _ => fail .notFields
termination_by (sizeOf d, 0)

/-- A node of a kind from its fields. -/
def ofFields (tag : Tag) (fields : Fields) : Checked Node :=
  match tag with
  | .str => (both (tagField tag fields) (textField fields "text")).map fun p => .str p.2
  | .space => (tagField tag fields).map fun _ => .space
  | .rule => (tagField tag fields).map fun _ => .rule
  | .rawInline =>
    (both (tagField tag fields) (both (textField fields "format") (textField fields "raw"))).map
      fun p => .rawInline p.2.1 p.2.2
  | .rawBlock =>
    (both (tagField tag fields)
      (both (optionalTextField fields "format") (textField fields "raw"))).map
      fun p => .rawBlock p.2.1 p.2.2
  | .codeBlock =>
    (both (tagField tag fields)
      (both (optionalTextField fields "language") (textField fields "code"))).map
      fun p => .codeBlock p.2.1 p.2.2
  | .header =>
    (both (nodesField fields "contents")
      (both (tagField tag fields)
        (both (levelField fields) (textFieldOr [] fields "identifier")))).map
      fun p => .header p.2.2.1 p.2.2.2 p.1
  | .styled style =>
    (both (nodesField fields "contents") (tagField tag fields)).map fun p => .styled style p.1
  | .bullets =>
    (both (tagField tag fields) (itemsField fields "items")).map fun p => .bullets p.2
termination_by (sizeOf fields, 1)

/-- A run of nodes, empty when it is not given. -/
def nodesField (fields : Fields) (name : String) : Checked (List Node) :=
  match h : get? fields name with
  | none => .ok []
  | some (.array ds) =>
    have := sizeOf_get? h
    under (.field name) (toNodes 0 ds)
  | some _ => under (.field name) (fail .notList)
termination_by (sizeOf fields, 0)
decreasing_by
  simp only [Draft.array.sizeOf_spec] at this
  exact Prod.Lex.left _ _ (by omega)

/-- The nodes of a list, of which the first has this index. -/
def toNodes (i : Nat) (ds : List Draft) : Checked (List Node) :=
  match ds with
  | [] => .ok []
  | d :: rest => (both (under (.index i) (toNode d)) (toNodes (i + 1) rest)).map fun p => p.1 :: p.2
termination_by (sizeOf ds, 0)

/-- The items of a bullet list, none when they are not given. -/
def itemsField (fields : Fields) (name : String) : Checked (List (List Node)) :=
  match h : get? fields name with
  | none => .ok []
  | some (.array ds) =>
    have := sizeOf_get? h
    under (.field name) (toItems 0 ds)
  | some _ => under (.field name) (fail .notList)
termination_by (sizeOf fields, 0)
decreasing_by
  simp only [Draft.array.sizeOf_spec] at this
  exact Prod.Lex.left _ _ (by omega)

/-- The items of a list, of which the first has this index. -/
def toItems (i : Nat) (ds : List Draft) : Checked (List (List Node)) :=
  match ds with
  | [] => .ok []
  | d :: rest => (both (under (.index i) (toItem d)) (toItems (i + 1) rest)).map fun p => p.1 :: p.2
termination_by (sizeOf ds, 0)

/-- An item from a draft: a node in the plain style, or its fields. -/
def toItem (d : Draft) : Checked (List Node) :=
  match d with
  | .node (.styled .plain contents) => .ok contents
  | .object fields =>
    (both (nodesField fields "contents") (tagField (.styled .plain) fields)).map Prod.fst
  | _ => fail .notItem
termination_by (sizeOf d, 0)

end

/-! ## Slides and documents -/

/-- A slide from its fields. -/
def toSlide (fields : Fields) : Checked (List Node) := nodesField fields "tokens"

/-- A document from its fields. -/
def toDocument (fields : Fields) : Checked Document :=
  let metadata : Checked Json.Fields :=
    match get? fields "meta" with
    | none => .ok []
    | some (.object m) => .ok (fieldValues m)
    | some _ => under (.field "meta") (fail .notObject)
  (both metadata (nodesField fields "tokens")).map fun p => ⟨p.1, p.2⟩

/-- Nodes are fixed once they are made: to set a field of one is refused,
whether there is such a field or not. -/
def setField (name : Text) : Problem := ⟨.frozen, [.name name]⟩

end Lectern.Draft
