-- Slides: the top nodes of a document, cut into runs. A header opens a
-- slide and stands on it. A rule opens a slide and stands on none. A rule
-- at the very start leaves an empty slide before it.
import Lectern.Node.Basic

namespace Lectern

/-- What a node does to the deck when it comes. -/
inductive Boundary
  /-- It opens a slide and is the first node of it. -/
  | opens
  /-- It opens a slide and is gone. -/
  | breaks
  /-- It joins the slide that is open. -/
  | joins
deriving DecidableEq

/-- What a node does at the top of a document. -/
def Node.boundary : Node → Boundary
  | .header _ _ _ => .opens
  | .rule => .breaks
  | _ => .joins

namespace Slide

variable {α : Type}

/-- Cuts tokens that come after the start of a slide: those that belong to
that slide, and the slides after it. -/
def cut (boundary : α → Boundary) : List α → List α × List (List α)
  | [] => ([], [])
  | t :: ts =>
    let (rest, later) := cut boundary ts
    match boundary t with
    | .joins => (t :: rest, later)
    | .opens => ([], (t :: rest) :: later)
    | .breaks => ([], rest :: later)

/-- Cuts tokens into slides. -/
def segmentBy (boundary : α → Boundary) : List α → List (List α)
  | [] => []
  | t :: ts =>
    let (rest, later) := cut boundary ts
    match boundary t with
    | .breaks => [] :: rest :: later
    | .opens | .joins => (t :: rest) :: later

/-! ### Tokens under another name -/

theorem cut_map {β : Type} (f : β → α) (boundary : α → Boundary) (ts : List β) :
    cut boundary (ts.map f) =
      ((cut (boundary ∘ f) ts).1.map f, (cut (boundary ∘ f) ts).2.map (List.map f)) := by
  induction ts with
  | nil => rfl
  | cons t ts ih =>
    simp only [List.map_cons, cut, ih, Function.comp_apply]
    rcases boundary (f t) with _ | _ | _ <;> simp

/-- The cut depends on what the tokens do to the deck and on nothing else. -/
theorem segmentBy_map {β : Type} (f : β → α) (boundary : α → Boundary) (ts : List β) :
    segmentBy boundary (ts.map f) = (segmentBy (boundary ∘ f) ts).map (List.map f) := by
  rcases ts with _ | ⟨t, ts⟩
  · rfl
  · simp only [List.map_cons, segmentBy, cut_map, Function.comp_apply]
    rcases boundary (f t) with _ | _ | _ <;> simp

end Slide

/-- The nodes on one slide. -/
abbrev Slide := List Node

namespace Slide

/-- Cuts the top nodes of a document into slides. -/
def segment (nodes : List Node) : List Slide := segmentBy Node.boundary nodes

end Slide

end Lectern
