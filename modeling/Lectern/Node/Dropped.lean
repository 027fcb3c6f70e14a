-- The blocks that building drops: all but the first of each item of a
-- bullet list. They are counted item by item, in the order in which the
-- items are met, up to the first fault.
import Lectern.Node.Build

namespace Lectern.Node

open Json (Value)

/-- What a reader sees in a list of values who stops behind the first that
is no good. -/
def seenUntil (good : Value → Bool) (seen : Value → List Nat) : List Value → List Nat
  | [] => []
  | v :: rest => seen v ++ if good v then seenUntil good seen rest else []

/-- The blocks dropped inside a list of records, if the value is one. -/
def droppedIn (depth : Nat) (dropped : Value → List Nat) (v : Value) : List Nat :=
  match v with
  | .array records => seenUntil (fun r => (ofRecord depth r).isOk) dropped records
  | _ => []

/-- The blocks that an item drops, and those dropped inside its first block. -/
def droppedByItem (depth : Nat) (dropped : Value → List Nat) (item : Value) : List Nat :=
  match openItem? item with
  | none => []
  | some (block, more) =>
    let inside :=
      match itemBlock? block with
      | some (_, contents) => droppedIn depth dropped contents
      | none => []
    if 0 < more then more :: inside else inside

/-- How many blocks building a record drops, item by item. -/
def dropped : Nat → Value → List Nat
  | 0, _ => []
  | depth + 1, v =>
    match openRecord v with
    | .error _ => []
    | .ok (name, c) =>
      match Tag.ofName? name with
      | some (.styled _) => droppedIn depth (fun r => dropped depth r) c
      | some .header =>
        match headerParts? c with
        | some (_, _, inlines) => droppedIn depth (fun r => dropped depth r) inlines
        | none => []
      | some .bullets =>
        match c with
        | .array items =>
          seenUntil (fun i => (ofItem (fun r => ofRecord depth r) i).isOk)
            (droppedByItem depth fun r => dropped depth r) items
        | _ => []
      | _ => []

end Lectern.Node
