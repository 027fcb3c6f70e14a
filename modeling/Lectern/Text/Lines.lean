-- Lines of a text: where a code point stands, counted in lines and
-- columns, and the one spelling of a line end.
import Lectern.Text.Basic

namespace Lectern

/-! ## Places -/

/-- A place in a text. The offset counts code points from 0. Lines and
columns count from 1, and a line feed ends a line. -/
structure Place where
  offset : Nat
  line : Nat
  column : Nat
deriving DecidableEq

namespace Place

/-- The place of the first code point. -/
def start : Place := ⟨0, 1, 1⟩

/-- The place after the code point `c` that stands here. -/
def next (p : Place) (c : CodePoint) : Place :=
  if c = CodePoint.lineFeed then ⟨p.offset + 1, p.line + 1, 1⟩
  else ⟨p.offset + 1, p.line, p.column + 1⟩

/-- The place right after a text. -/
def after (t : Text) : Place := t.foldl next start

theorem after_snoc (t : Text) (c : CodePoint) : after (t ++ [c]) = (after t).next c := by
  simp [after]

theorem next_offset (p : Place) (c : CodePoint) : (p.next c).offset = p.offset + 1 := by
  unfold next
  split <;> rfl

theorem foldl_next_offset (p : Place) (t : Text) :
    (t.foldl next p).offset = p.offset + t.length := by
  induction t generalizing p with
  | nil => rfl
  | cons c t ih =>
    rw [List.foldl_cons, ih, next_offset, List.length_cons]
    omega

/-- The offset right after a text is the length of the text. -/
theorem after_offset (t : Text) : (after t).offset = t.length := by
  unfold after
  rw [foldl_next_offset, start, Nat.zero_add]

/-- A place as a message shows it. -/
def text (p : Place) : Text :=
  Text.ofString "line " ++ Text.ofNat p.line ++ Text.ofString " column " ++ Text.ofNat p.column
    ++ Text.ofString " (char " ++ Text.ofNat p.offset ++ Text.ofString ")"

end Place

/-! ## Line ends -/

namespace Text

/-- One code point more, with its line end unified: what is written so far,
last first, and whether the code point before was a carriage return. -/
def unifyStep (written : Text × Bool) (c : CodePoint) : Text × Bool :=
  if c = CodePoint.carriageReturn then (CodePoint.lineFeed :: written.1, true)
  else if c = CodePoint.lineFeed ∧ written.2 then (written.1, false)
  else (c :: written.1, false)

/-- Writes every line end as one line feed. A carriage return is a line
end, alone or with a line feed behind it. -/
def unifyLineEnds (t : Text) : Text := (t.foldl unifyStep ([], false)).1.reverse

end Text

end Lectern
