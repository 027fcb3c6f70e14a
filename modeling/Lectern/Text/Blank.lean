-- Blank code points, and texts without blanks at their ends.
import Lectern.Text.Basic

namespace Lectern

/-- White space: the code points that separate words or lines. -/
def CodePoint.isBlank (c : CodePoint) : Bool :=
  (0x09 ≤ c.val && c.val ≤ 0x0D) || (0x1C ≤ c.val && c.val ≤ 0x20) || c.val == 0x85
    || c.val == 0xA0 || c.val == 0x1680 || (0x2000 ≤ c.val && c.val ≤ 0x200A)
    || c.val == 0x2028 || c.val == 0x2029 || c.val == 0x202F || c.val == 0x205F
    || c.val == 0x3000

namespace Text

/-- The text from its first code point that is not blank. -/
def stripStart (t : Text) : Text := t.dropWhile CodePoint.isBlank

/-- The text up to its last code point that is not blank. -/
def stripEnd (t : Text) : Text := (stripStart t.reverse).reverse

/-- The text without the blanks at its two ends. -/
def strip (t : Text) : Text := stripEnd (stripStart t)

theorem exists_stripStart (t : Text) :
    ∃ before : Text, (∀ c ∈ before, c.isBlank) ∧ t = before ++ t.stripStart :=
  ⟨t.takeWhile CodePoint.isBlank, List.all_eq_true.mp List.all_takeWhile,
    List.takeWhile_append_dropWhile.symm⟩

theorem exists_stripEnd (t : Text) :
    ∃ behind : Text, (∀ c ∈ behind, c.isBlank) ∧ t = t.stripEnd ++ behind := by
  obtain ⟨before, hb, ht⟩ := exists_stripStart t.reverse
  refine ⟨before.reverse, fun c hc => hb c (List.mem_reverse.mp hc), ?_⟩
  rw [stripEnd, ← List.reverse_append, ← ht, List.reverse_reverse]

/-- A text is its strip with blanks at the two ends. -/
theorem exists_strip (t : Text) : ∃ before behind : Text, (∀ c ∈ before, c.isBlank) ∧
    (∀ c ∈ behind, c.isBlank) ∧ t = before ++ (t.strip ++ behind) := by
  obtain ⟨before, hbefore, ht⟩ := exists_stripStart t
  obtain ⟨behind, hbehind, hs⟩ := exists_stripEnd t.stripStart
  refine ⟨before, behind, hbefore, hbehind, ?_⟩
  rw [strip, ← hs, ← ht]

end Text

end Lectern
