-- The markup of a node. Each kind has one rule, and a node that holds
-- others is written around their markup, in reading order.
import Lectern.Node.Basic
import Lectern.Text.Blank
import Lectern.Text.Upper

namespace Lectern

/-! ## Parts of the markup -/

/-- The markup in front of a node that only holds others. -/
def Style.opening : Style → Text
  | .para => Text.ofString "\n\n"
  | .plain => Text.ofString "\\item "
  | .strong => Text.ofString "\x7b\\bf "
  | .emph => Text.ofString "\x7b\\emphasis "
  | .quote => Text.ofString "\x7b\\italic\\quotation\x7b "

/-- The markup behind a node that only holds others. -/
def Style.closing : Style → Text
  | .para | .plain => []
  | .strong | .emph => Text.ofString "\x7d"
  | .quote => Text.ofString "\x7d\x7d"

namespace Markup

/-- The line end between the parts of a block. -/
def newline : Text := [CodePoint.lineFeed]

/-- The control word that opens an environment. -/
def startWord (environment : Text) : Text := Text.ofString "\\start" ++ environment

/-- The control word that closes an environment. -/
def stopWord (environment : Text) : Text := Text.ofString "\\stop" ++ environment

/-- The environment of a bullet list. -/
def itemize : Text := Text.ofString "itemize"

/-- The environment of code: the language in capitals, or a plain one. -/
def codeEnvironment (language : Option Text) : Text :=
  match language with
  | some l => if l.isEmpty then Text.ofString "typing" else l.upper
  | none => Text.ofString "typing"

/-- A body between the control words of an environment, each on a line. -/
def block (environment body : Text) : Text :=
  startWord environment ++ newline ++ body ++ newline ++ stopWord environment

/-- The control word of a header and the brace behind it. Only the top
level has a word of its own. -/
def headerOpening (level : Level) : Text :=
  if level.val = 1 then Text.ofString "\\subject\x7b" else Text.ofString "\\subsubject\x7b"

end Markup

/-! ## Nodes -/

namespace Node

open Markup

mutual

/-- The markup of a node. The nodes in a quote have no blanks at their
ends, so that a paragraph there does not open with a blank line. -/
def markup : Node → Text
  | .str t => t
  | .space => Text.ofString " "
  | .rule => []
  | .rawInline _ raw => raw
  | .rawBlock _ raw => raw
  | .codeBlock language code => block (codeEnvironment language) code
  | .header level _ contents =>
    headerOpening level ++ (markups contents).flatten ++ Text.ofString "\x7d"
  | .styled .quote contents =>
    Style.opening .quote ++ ((markups contents).map Text.strip).flatten ++ Style.closing .quote
  | .styled style contents => style.opening ++ (markups contents).flatten ++ style.closing
  | .bullets items => block itemize (Text.joinWith newline (itemMarkups items))

/-- The markup of each node of a run. -/
def markups : List Node → List Text
  | [] => []
  | n :: rest => n.markup :: markups rest

/-- The markup of each item of a bullet list. -/
def itemMarkups : List (List Node) → List Text
  | [] => []
  | contents :: rest =>
    (Style.opening .plain ++ (markups contents).flatten ++ Style.closing .plain)
      :: itemMarkups rest

end

theorem markups_eq (ns : List Node) : markups ns = ns.map markup := by
  induction ns with
  | nil => rfl
  | cons n ns ih => simp [markups, ih]

theorem itemMarkups_eq (items : List (List Node)) :
    itemMarkups items = items.map fun contents => (styled .plain contents).markup := by
  induction items with
  | nil => rfl
  | cons contents items ih => simp [itemMarkups, markup, ih]

end Node

end Lectern
