-- Texts of paragraphs inside each other. A text of any depth is spelled out
-- by the grammar, so what it is read as is known without a run of the
-- reader.
import Lectern.Proofs.OpenCalls
import Lectern.Proofs.Spellings

namespace Lectern.Json

/-! ## Spellings without escapes and white space -/

theorem spaces_nil : Spaces [] := nofun

/-- A value may stand without white space around it. -/
theorem Spells.bare {tree : Tree} {t : Text} (h : Spells (.value tree) t) :
    Spells (.element tree) t := by
  have helement := Spells.element spaces_nil h spaces_nil
  rwa [List.nil_append, List.append_nil] at helement

section

variable {t : Text}
  (h : ∀ c ∈ t, c ≠ CodePoint.quotationMark ∧ c ≠ CodePoint.backslash ∧ 0x20 ≤ c.val)

include h

/-- A text in which nothing needs an escape stands for itself. -/
theorem stringSpells_plain :
    StringSpells t (CodePoint.quotationMark :: (t ++ [CodePoint.quotationMark])) := by
  refine .mk ?_
  induction t with
  | nil => exact .nil
  | cons c t ih =>
    obtain ⟨⟨hquote, hslash, hcontrol⟩, ht⟩ := List.forall_mem_cons.mp h
    exact .plain hquote hslash hcontrol (ih ht)

theorem spells_string_plain :
    Spells (.element (.string t)) (CodePoint.quotationMark :: (t ++ [CodePoint.quotationMark])) :=
  (Spells.string (stringSpells_plain h)).bare

theorem nameSpells_plain :
    NameSpells t (CodePoint.quotationMark :: (t ++ [CodePoint.quotationMark])
      ++ [CodePoint.ofChar ':']) := by
  have hname := NameSpells.mk spaces_nil (stringSpells_plain h) spaces_nil
  rwa [List.nil_append, List.nil_append] at hname

end

end Lectern.Json

namespace Lectern.Node

open Json (Spells Tree)

/-! ## Texts of records -/

/-- The text of a paragraph around the text of a record. -/
def paragraphText (record : Text) : Text :=
  Text.ofString "\x7b\"t\":\"Para\",\"c\":[" ++ (record ++ Text.ofString "]\x7d")

/-- The text of a space. -/
def spaceText : Text := Text.ofString "\x7b\"t\":\"Space\"\x7d"

/-- The text of a space with paragraphs around it. -/
def paragraphsText (k : Nat) : Text := paragraphText^[k] spaceText

/-- The text of a document of one record. -/
def documentText (record : Text) : Text :=
  Text.ofString "[\x7b\x7d,[" ++ (record ++ Text.ofString "]]")

/-- The text spells the record of a node with so many arrays and objects inside
each other, and without a number. -/
def SpelledBy (n : Node) (depth : Nat) (t : Text) : Prop :=
  ∃ tree : Tree, Spells (.value tree) t ∧ tree.depth = depth ∧ tree.digits = 0 ∧
    tree.value = n.toRecord

theorem spelledBy_space : SpelledBy .space 1 spaceText :=
  ⟨.object [(tagField, .string (Tag.name .space))],
    .object (.lastMember (Json.nameSpells_plain (by decide))
      (Json.spells_string_plain (by decide))), rfl, rfl, rfl⟩

theorem SpelledBy.paragraph {n : Node} {depth : Nat} {t : Text} (h : SpelledBy n depth t) :
    SpelledBy (.paragraph n) (depth + 2) (paragraphText t) := by
  obtain ⟨tree, hspells, hdepth, hdigits, hvalue⟩ := h
  refine ⟨.object [(tagField, .string (Tag.name (.styled .para))),
    (contentsField, .array [tree])], ?_, ?_, ?_, ?_⟩
  · have hcontents := Spells.lastMember (Json.nameSpells_plain (t := contentsField) (by decide))
      (Spells.array (.lastItem hspells.bare)).bare
    have hrecord := Spells.object (.member (Json.nameSpells_plain (t := tagField) (by decide))
      (Json.spells_string_plain (t := Tag.name (.styled .para)) (by decide)) hcontents)
    simp only [List.cons_append, List.append_assoc, List.nil_append] at hrecord
    exact hrecord
  · simp [Tree.depth, Json.membersDepth, Json.itemsDepth, hdepth]
  · simp [Tree.digits, Json.membersDigits, Json.itemsDigits, hdigits]
  · simp only [Tree.value, Json.memberValues, Json.itemValues, hvalue]
    rfl

theorem spelledBy_paragraphs (k : Nat) :
    SpelledBy (paragraphs k) (2 * k + 1) (paragraphsText k) := by
  induction k with
  | zero => exact spelledBy_space
  | succ k ih =>
    rw [paragraphs, paragraphsText, Function.iterate_succ_apply', Function.iterate_succ_apply']
    exact ih.paragraph

/-- A document of one record is read if the record is not too deep. -/
theorem SpelledBy.parse {n : Node} {depth : Nat} {t : Text} (h : SpelledBy n depth t)
    (hdepth : depth + 2 ≤ Json.Limits.standard.depth) :
    Json.parse (documentText t) = .ok n.payload := by
  obtain ⟨tree, hspells, rfl, hdigits, hvalue⟩ := h
  refine Json.read_eq_ok_iff.mpr ⟨.array [.object [], .array [tree]], ?_, ?_, ?_, ?_⟩
  · have hdocument := Spells.array (.item (Spells.noMembers Json.spaces_nil).bare
      (.lastItem (Spells.array (.lastItem hspells.bare)).bare))
    simp only [List.cons_append, List.append_assoc, List.nil_append] at hdocument
    exact Spells.bare hdocument
  · simp only [Tree.depth, Json.membersDepth, Json.itemsDepth]
    omega
  · simp [Tree.digits, Json.membersDigits, Json.itemsDigits, hdigits]
  · simp only [Tree.value, Json.memberValues, Json.itemValues, hvalue]
    rfl

theorem isSurrogate_documentText (k : Nat) :
    ∀ c ∈ documentText (paragraphsText k), c.isSurrogate = false := by
  have hinside : ∀ c ∈ paragraphsText k, c.isSurrogate = false := by
    induction k with
    | zero => decide
    | succ k ih =>
      rw [paragraphsText, Function.iterate_succ_apply']
      exact List.forall_mem_append.mpr ⟨by decide, List.forall_mem_append.mpr ⟨ih, by decide⟩⟩
  exact List.forall_mem_append.mpr ⟨by decide, List.forall_mem_append.mpr ⟨hinside, by decide⟩⟩

end Lectern.Node
