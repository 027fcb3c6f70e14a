-- How a node is written, in one equation for all kinds: an opening, the text
-- of the node itself, its children with a separator between two of them, and
-- a closing. The laws of the markup are proved from this equation.
import Lectern.Node.Walk
import Lectern.Slide.Deck

namespace Lectern

open Markup

namespace Text

/-- Texts with nothing between them. -/
theorem joinWith_nil (ts : List Text) : joinWith [] ts = ts.flatten := by
  induction ts with
  | nil => rfl
  | cons t ts ih =>
    cases ts with
    | nil => simp [joinWith]
    | cons t' ts =>
      unfold joinWith at ih ⊢
      rw [List.intercalate_cons_cons, ih, List.append_nil]
      rfl

/-- What holds of the separator and of each text holds of the texts with the
separator between them, if it may be joined. -/
theorem joinWith_closed {P : Text → Prop} (nil : P []) (append : ∀ {a b}, P a → P b → P (a ++ b))
    {separator : Text} (hs : P separator) {ts : List Text} (h : ∀ t ∈ ts, P t) :
    P (joinWith separator ts) := by
  induction ts with
  | nil => exact nil
  | cons t ts ih =>
    obtain ⟨ht, hts⟩ := List.forall_mem_cons.mp h
    cases ts with
    | nil => simpa [joinWith] using ht
    | cons u us =>
      unfold joinWith at ih ⊢
      rw [List.intercalate_cons_cons]
      exact append (append ht hs) (ih hts)

/-- What is looked for and is never blank is not lost in a strip. -/
theorem filter_strip {p : CodePoint → Bool} (hp : ∀ c : CodePoint, c.isBlank → p c = false)
    (t : Text) : t.strip.filter p = t.filter p := by
  obtain ⟨before, behind, hbefore, hbehind, ht⟩ := exists_strip t
  have hnone : ∀ {u : Text}, (∀ c ∈ u, c.isBlank) → u.filter p = [] := fun hu =>
    List.filter_eq_nil_iff.mpr fun c hc => by simp [hp c (hu c hc)]
  calc
    t.strip.filter p = (before ++ (t.strip ++ behind)).filter p := by
      rw [List.filter_append, List.filter_append, hnone hbefore, hnone hbehind, List.nil_append,
        List.append_nil]
    _ = t.filter p := by rw [← ht]

end Text

namespace Node

/-! ## The parts of the markup -/

/-- The text that a node holds itself and not in a child. -/
def ownText? : Node → Option Text
  | .str t | .rawInline _ t | .rawBlock _ t | .codeBlock _ t => some t
  | .space | .rule | .header .. | .styled .. | .bullets _ => none

/-- The language of a node that is code. -/
def ownLanguage? : Node → Option Text
  | .codeBlock language _ => language
  | _ => none

/-- What is written in front of what a node holds. -/
def opening : Node → Text
  | .space => Text.ofString " "
  | .codeBlock language _ => startWord (codeEnvironment language) ++ newline
  | .header level _ _ => headerOpening level
  | .styled style _ => style.opening
  | .bullets _ => startWord itemize ++ newline
  | .str _ | .rule | .rawInline .. | .rawBlock .. => []

/-- What is written behind what a node holds. -/
def closing : Node → Text
  | .codeBlock language _ => newline ++ stopWord (codeEnvironment language)
  | .header .. => Text.ofString "\x7d"
  | .styled style _ => style.closing
  | .bullets _ => newline ++ stopWord itemize
  | .str _ | .space | .rule | .rawInline .. | .rawBlock .. => []

/-- What is written between two children of a node. -/
def separator : Node → Text
  | .bullets _ => newline
  | _ => []

/-- What is written for a child. In a quote it has no blanks at its ends. -/
def childMarkup (n child : Node) : Text :=
  if n.tag = .styled .quote then child.markup.strip else child.markup

/-- What is written for the children of a node. -/
def childrenMarkup (n : Node) : Text :=
  Text.joinWith n.separator (n.children.map n.childMarkup)

/-! ## The equation -/

theorem childMarkup_of_ne {n : Node} (h : n.tag ≠ .styled .quote) : n.childMarkup = markup := by
  funext child
  rw [childMarkup, if_neg h]

theorem childrenMarkup_header (level : Level) (identifier : Text) (contents : List Node) :
    (header level identifier contents).childrenMarkup = (markups contents).flatten := by
  rw [childrenMarkup, childMarkup_of_ne (by simp [tag]), markups_eq]
  exact Text.joinWith_nil _

theorem childrenMarkup_styled {style : Style} (h : style ≠ .quote) (contents : List Node) :
    (styled style contents).childrenMarkup = (markups contents).flatten := by
  rw [childrenMarkup, childMarkup_of_ne (by simp [tag, h]), markups_eq]
  exact Text.joinWith_nil _

theorem childrenMarkup_quote (contents : List Node) :
    (styled .quote contents).childrenMarkup = ((markups contents).map Text.strip).flatten := by
  have h : (styled .quote contents).childMarkup = Text.strip ∘ markup := by
    funext child
    exact if_pos rfl
  rw [childrenMarkup, h, markups_eq, List.map_map]
  exact Text.joinWith_nil _

theorem childrenMarkup_bullets (items : List (List Node)) :
    (bullets items).childrenMarkup = Text.joinWith newline (itemMarkups items) := by
  rw [childrenMarkup, childMarkup_of_ne (by simp [tag]), itemMarkups_eq, separator, children,
    List.map_map]
  rfl

/-- A node is written as its opening, the text of its own, its children and
its closing. -/
theorem markup_eq (n : Node) :
    n.markup = n.opening ++ (n.ownText?.getD [] ++ n.childrenMarkup) ++ n.closing := by
  cases n with
  | str | space | rule | rawInline | rawBlock =>
    simp [markup, opening, ownText?, childrenMarkup, children, closing, Text.joinWith]
  | codeBlock =>
    simp [markup, opening, ownText?, childrenMarkup, children, closing, Text.joinWith, block]
  | header =>
    rw [childrenMarkup_header]
    rfl
  | styled style contents =>
    cases style with
    | quote =>
      rw [childrenMarkup_quote]
      rfl
    | para | plain | strong | emph =>
      rw [childrenMarkup_styled (by simp)]
      rfl
  | bullets =>
    rw [childrenMarkup_bullets]
    simp [markup, opening, ownText?, closing, block]

end Node

/-! ## Slides -/

namespace Slide

theorem body_eq (s : Slide) : s.body = Text.joinWith newline (s.map Node.markup) := by
  rw [body, Node.markups_eq]

theorem frame_lines (s : Slide) :
    s.frame = Template.slideStart ++ newline ++ (s.body ++ (newline ++ Template.slideStop)) := by
  rw [frame, Text.joinWith, List.intercalate_cons_cons, List.intercalate_cons_cons,
    List.intercalate_singleton]
  simp

/-- Slides in markup, each on lines of its own. -/
def frames (deck : List Slide) : Text := deck.flatMap fun s => s.frame ++ newline

theorem frames_append (deck more : List Slide) : frames (deck ++ more) = frames deck ++ frames more :=
  List.flatMap_append

theorem deck_eq (config : Config) (deck : List Slide) :
    config.deck deck = config.prologue ++ frames deck ++ config.epilogue := rfl

end Slide

end Lectern
