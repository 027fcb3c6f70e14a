-- The text of a deck: the prologue, a frame for each slide, the epilogue.
-- Nodes that stand too deep inside each other have a text as all have, but
-- rendering breaks off before it is there.
import Lectern.Config
import Lectern.Node.Calls
import Lectern.Node.Markup
import Lectern.Slide.Segmentation

namespace Lectern

/-! ## Texts -/

/-- The nodes of a slide in markup, one below the other. -/
def Slide.body (s : Slide) : Text := Text.joinWith Markup.newline (Node.markups s)

/-- A slide in markup: its body between the lines that open and close it. -/
def Slide.frame (s : Slide) : Text :=
  Text.joinWith Markup.newline [Template.slideStart, s.body, Template.slideStop]

/-- The text of a deck. -/
def Config.deck (config : Config) (slides : List Slide) : Text :=
  config.prologue ++ (slides.flatMap fun s => Slide.frame s ++ Markup.newline) ++ config.epilogue

/-! ## Rendering -/

/-- The markup of a node, if rendering gets through. -/
def Node.render? (n : Node) : Option Text :=
  if Fits Tag.renderCalls 0 [n] then some n.markup else none

namespace Slide

/-- Rendering gets through the nodes of a slide. -/
def Fits (s : Slide) : Prop := Node.Fits Tag.renderCalls 0 s

instance (s : Slide) : Decidable s.Fits :=
  inferInstanceAs (Decidable (Node.Fits Tag.renderCalls 0 s))

/-- The frame of a slide, if rendering gets through. -/
def render? (s : Slide) : Option Text := if s.Fits then some s.frame else none

end Slide

/-- The text of a deck, if rendering gets through. -/
def Config.render? (config : Config) (slides : List Slide) : Option Text :=
  if ∀ s ∈ slides, s.Fits then some (config.deck slides) else none

end Lectern
