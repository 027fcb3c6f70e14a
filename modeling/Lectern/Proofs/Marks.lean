-- Marks: the lines that open and close a slide, wherever they stand in a
-- text. A text is read by cutting it in front of each mark. A text that is
-- clear has no mark in it and makes none with what is written behind it, and
-- this stays so when blanks at its ends are taken away.
import Mathlib.Data.List.Infix
import Lectern.Proofs.ControlWords
import Lectern.Slide.Template

namespace Lectern

/-! ## Marks -/

/-- A line that opens or closes a slide. -/
inductive Mark
  | start
  | stop
deriving DecidableEq

namespace Mark

/-- Both marks. -/
def all : List Mark := [.start, .stop]

theorem mem_all (mark : Mark) : mark ∈ all := by
  cases mark <;> decide

/-- The line of a mark. -/
def line : Mark → Text
  | .start => Template.slideStart
  | .stop => Template.slideStop

/-- The mark that a text begins with. -/
def at? (t : Text) : Option Mark := all.find? fun mark => mark.line <+: t

/-- No line of a mark begins like another to its end. -/
theorem eq_of_prefix_line {mark other : Mark} (h : mark.line <+: other.line) : mark = other := by
  revert mark other
  have hall : ∀ mark ∈ all, ∀ other ∈ all, mark.line <+: other.line → mark = other := by decide
  exact fun {mark other} => hall mark mark.mem_all other other.mem_all

theorem at?_eq_some {t : Text} {mark : Mark} : at? t = some mark ↔ mark.line <+: t := by
  have hfound : ∀ other, at? t = some other → other.line <+: t := by
    intro other h
    have hline := List.find?_some h
    exact of_decide_eq_true hline
  constructor
  · exact hfound mark
  · intro h
    cases hat : at? t with
    | none =>
      have hnone := List.find?_eq_none.mp hat mark mark.mem_all
      exact absurd (decide_eq_true h) hnone
    | some other =>
      rcases List.prefix_or_prefix_of_prefix h (hfound other hat) with hp | hp
      · rw [eq_of_prefix_line hp]
      · rw [eq_of_prefix_line hp]

theorem exists_line_eq (mark : Mark) :
    ∃ word, mark.line = CodePoint.backslash :: word ∧ CodePoint.backslash ∉ word := by
  cases mark with
  | start => exact ⟨_, rfl, by decide⟩
  | stop => exact ⟨_, rfl, by decide⟩

end Mark

namespace Text

/-! ## Cutting a text at its marks -/

/-- A text cut in front of each mark: what comes before the first mark, and
each mark with what stands between it and the next. -/
def sections : Text → Text × List (Mark × Text)
  | [] => ([], [])
  | c :: rest =>
    match Mark.at? (c :: rest) with
    | some mark => ([], (mark, (c :: (sections rest).1).drop mark.line.length) :: (sections rest).2)
    | none => (c :: (sections rest).1, (sections rest).2)

/-- What stands behind each mark that opens a slide, up to the next mark. -/
def framed (t : Text) : List Text :=
  t.sections.2.filterMap fun s => if s.1 = .start then some s.2 else none

/-- The marks at which the text is cut are all that begin at a place in it. -/
theorem map_fst_sections (t : Text) : t.sections.2.map Prod.fst = t.tails.filterMap Mark.at? := by
  induction t with
  | nil => rfl
  | cons c rest ih =>
    rw [sections, List.tails_cons]
    cases hat : Mark.at? (c :: rest) with
    | none => rw [List.filterMap_cons_none hat, ih]
    | some mark => rw [List.filterMap_cons_some hat, ← ih, List.map_cons]

theorem countP_tails (mark : Mark) (t : Text) :
    t.tails.countP (mark.line <+: ·) = (t.sections.2.map Prod.fst).count mark := by
  rw [map_fst_sections, List.count, List.countP_filterMap]
  refine List.countP_congr fun rest _ => ?_
  rw [decide_eq_true_iff, ← Mark.at?_eq_some]
  cases Mark.at? rest <;> simp

/-! ## Clear texts -/

/-- The texts differ at a place in both. -/
def Apart (a b : Text) : Prop := ¬ a <+: b ∧ ¬ b <+: a

instance (a b : Text) : Decidable (Apart a b) := inferInstanceAs (Decidable (_ ∧ _))

theorem Apart.append_right {a b : Text} (h : Apart a b) {more : Text} (hp : b <+: more) :
    Apart a more := by
  refine ⟨fun ha => ?_, fun hm => h.2 (hp.trans hm)⟩
  rcases List.prefix_or_prefix_of_prefix ha hp with hab | hba
  · exact h.1 hab
  · exact h.2 hba

theorem apart_of_getElem? {a b : Text} {i : Nat} {x y : CodePoint} (ha : a[i]? = some x)
    (hb : b[i]? = some y) (hne : x ≠ y) : Apart a b := by
  constructor
  · rintro ⟨more, rfl⟩
    rw [List.getElem?_append_left (List.getElem?_eq_some_iff.mp ha).1, ha] at hb
    exact hne (Option.some.inj hb)
  · rintro ⟨more, rfl⟩
    rw [List.getElem?_append_left (List.getElem?_eq_some_iff.mp hb).1, hb] at ha
    exact hne (Option.some.inj ha).symm

/-- At each backslash the text goes on, but for blanks at its end, until it
differs from every mark. -/
def Clear : Text → Prop
  | [] => True
  | c :: rest =>
    (c = CodePoint.backslash → ∀ mark ∈ Mark.all, Apart mark.line (stripEnd (c :: rest))) ∧
      Clear rest

instance decidableClear : (t : Text) → Decidable t.Clear
  | [] => isTrue trivial
  | c :: rest =>
    have := decidableClear rest
    inferInstanceAs (Decidable ((c = CodePoint.backslash → ∀ mark ∈ Mark.all,
      Apart mark.line (stripEnd (c :: rest))) ∧ Clear rest))

theorem clear_of_notMem {t : Text} (h : CodePoint.backslash ∉ t) : t.Clear := by
  induction t with
  | nil => trivial
  | cons c rest ih =>
    rw [List.mem_cons, not_or] at h
    exact ⟨fun hc => absurd hc.symm h.1, ih h.2⟩

theorem stripEnd_append_of_blank (a : Text) {b : Text} (h : ∀ c ∈ b, c.isBlank) :
    stripEnd (a ++ b) = a.stripEnd := by
  unfold stripEnd stripStart
  rw [List.reverse_append, List.dropWhile_append_of_pos fun c hc => h c (List.mem_reverse.mp hc)]

theorem stripEnd_append_of_not_blank (a : Text) {b : Text} (h : ∃ c ∈ b, ¬ c.isBlank) :
    stripEnd (a ++ b) = a ++ b.stripEnd := by
  have hne : (b.reverse.dropWhile CodePoint.isBlank).isEmpty = false := by
    rw [List.isEmpty_eq_false_iff, ne_eq, List.dropWhile_eq_nil_iff]
    intro hall
    obtain ⟨c, hc, hblank⟩ := h
    exact hblank (hall c (List.mem_reverse.mpr hc))
  unfold stripEnd stripStart
  rw [List.reverse_append, List.dropWhile_append, hne]
  simp

theorem stripEnd_prefix_self (t : Text) : t.stripEnd <+: t := by
  obtain ⟨behind, -, ht⟩ := exists_stripEnd t
  exact ⟨behind, ht.symm⟩

theorem stripEnd_prefix_append (a b : Text) : a.stripEnd <+: stripEnd (a ++ b) := by
  by_cases h : ∀ c ∈ b, c.isBlank
  · rw [stripEnd_append_of_blank a h]
  · have hsome : ∃ c ∈ b, ¬ c.isBlank := by simpa using h
    rw [stripEnd_append_of_not_blank a hsome]
    exact (stripEnd_prefix_self a).trans (List.prefix_append a _)

theorem Clear.append {a b : Text} (ha : a.Clear) (hb : b.Clear) : Clear (a ++ b) := by
  induction a with
  | nil => exact hb
  | cons c rest ih =>
    refine ⟨fun hc mark hm => ?_, ih ha.2⟩
    exact (ha.1 hc mark hm).append_right (stripEnd_prefix_append (c :: rest) b)

theorem Clear.of_append_left {a b : Text} (h : Clear (a ++ b)) : b.Clear := by
  induction a with
  | nil => exact h
  | cons c rest ih => exact ih h.2

theorem Clear.of_append_right {a b : Text} (h : Clear (a ++ b)) (hb : ∀ c ∈ b, c.isBlank) :
    a.Clear := by
  induction a with
  | nil => trivial
  | cons c rest ih =>
    refine ⟨fun hc mark hm => ?_, ih h.2⟩
    have hapart : Apart mark.line (stripEnd ((c :: rest) ++ b)) := h.1 hc mark hm
    rwa [stripEnd_append_of_blank (c :: rest) hb] at hapart

theorem Clear.strip {t : Text} (h : t.Clear) : t.strip.Clear := by
  obtain ⟨before, behind, -, hbehind, ht⟩ := exists_strip t
  rw [ht] at h
  exact h.of_append_left.of_append_right hbehind

theorem clear_flatMap {α : Type} {f : α → Text} {xs : List α} (h : ∀ x ∈ xs, (f x).Clear) :
    Clear (xs.flatMap f) := by
  induction xs with
  | nil => trivial
  | cons x xs ih =>
    obtain ⟨hx, hxs⟩ := List.forall_mem_cons.mp h
    exact hx.append (ih hxs)

/-! ## Control words of other environments -/

/-- The name of an environment with which no word makes a mark. It is not
blank, so that a strip leaves its first letter, and this is not the one that
the environment of a slide begins with. -/
structure Foreign (name : Text) : Prop where
  noBackslash : CodePoint.backslash ∉ name
  solid : ∃ c ∈ name, ¬ c.isBlank
  first : name.head? ≠ some 's'

instance (name : Text) : Decidable name.Foreign :=
  decidable_of_iff (CodePoint.backslash ∉ name ∧ (∃ c ∈ name, ¬ c.isBlank) ∧
      name.head? ≠ some (CodePoint.ofChar 's'))
    ⟨fun ⟨hb, hs, hf⟩ => ⟨hb, hs, hf⟩, fun ⟨hb, hs, hf⟩ => ⟨hb, hs, hf⟩⟩

/-- What is left of a text that is not blank begins as the text does. -/
theorem exists_stripEnd_cons {c : CodePoint} {rest : Text} (h : ∃ d ∈ c :: rest, ¬ d.isBlank) :
    ∃ tail, stripEnd (c :: rest) = c :: tail := by
  obtain ⟨behind, hblank, ht⟩ := exists_stripEnd (c :: rest)
  cases hs : stripEnd (c :: rest) with
  | nil =>
    rw [hs, List.nil_append] at ht
    obtain ⟨d, hd, hsolid⟩ := h
    exact absurd (hblank d (ht ▸ hd)) hsolid
  | cons d tail =>
    rw [hs, List.cons_append, List.cons.injEq] at ht
    exact ⟨tail, by rw [ht.1]⟩

/-- The words that open and close environments differ from the marks at the
first letter of the name, or else before it. -/
theorem apart_word {key : Text} (hk : key = startName ∨ key = stopName) {c : CodePoint}
    (hc : c ≠ 's') (more : Text) (mark : Mark) :
    Apart mark.line (CodePoint.backslash :: (key ++ c :: more)) := by
  have ha : (CodePoint.ofChar 'a') ≠ 'o' := by decide
  rcases hk with rfl | rfl
  · cases mark with
    | start => exact apart_of_getElem? (i := 6) rfl rfl hc.symm
    | stop => exact apart_of_getElem? (i := 3) rfl rfl ha.symm
  · cases mark with
    | start => exact apart_of_getElem? (i := 3) rfl rfl ha
    | stop => exact apart_of_getElem? (i := 5) rfl rfl hc.symm

theorem clear_word {key : Text} (hk : key = startName ∨ key = stopName) {name : Text}
    (hn : name.Foreign) {rest : Text} (hr : rest.Clear) :
    Clear (CodePoint.backslash :: (key ++ (name ++ rest))) := by
  have hkey : CodePoint.backslash ∉ key := by
    rcases hk with rfl | rfl <;> decide
  refine ⟨fun _ mark _ => ?_,
    (clear_of_notMem hkey).append ((clear_of_notMem hn.noBackslash).append hr)⟩
  obtain ⟨c, more, rfl⟩ : ∃ c more, name = c :: more := by
    obtain ⟨c, hc, -⟩ := hn.solid
    exact List.exists_cons_of_ne_nil (List.ne_nil_of_mem hc)
  have hc : c ≠ 's' := fun hc => hn.first (by rw [hc]; rfl)
  -- The name is not blank, so its first letter is left behind the key.
  have hsolid : ∃ d ∈ c :: (more ++ rest), ¬ d.isBlank := by
    obtain ⟨d, hd, hblank⟩ := hn.solid
    exact ⟨d, List.mem_append_left rest hd, hblank⟩
  obtain ⟨tail, htail⟩ := exists_stripEnd_cons hsolid
  have hstrip : stripEnd (CodePoint.backslash :: (key ++ (c :: more ++ rest))) =
      CodePoint.backslash :: (key ++ c :: tail) := by
    rw [← htail]
    exact stripEnd_append_of_not_blank (CodePoint.backslash :: key) hsolid
  rw [hstrip]
  exact apart_word hk hc tail mark

/-! ## Cutting a text behind a clear one -/

/-- No mark begins in a clear text. -/
theorem sections_append {a : Text} (ha : a.Clear) (t : Text) :
    sections (a ++ t) = (a ++ t.sections.1, t.sections.2) := by
  induction a with
  | nil => rfl
  | cons c rest ih =>
    have hnone : Mark.at? (c :: (rest ++ t)) = none := by
      rw [Option.eq_none_iff_forall_ne_some]
      intro mark hat
      have hline := Mark.at?_eq_some.mp hat
      obtain ⟨word, hword, -⟩ := mark.exists_line_eq
      have hc : c = CodePoint.backslash := by
        rw [hword, List.cons_prefix_cons] at hline
        exact hline.1.symm
      have hprefix : stripEnd (c :: rest) <+: c :: (rest ++ t) :=
        (stripEnd_prefix_self (c :: rest)).trans (List.prefix_append (c :: rest) t)
      exact ((ha.1 hc mark mark.mem_all).append_right hprefix).1 hline
    rw [List.cons_append, sections, hnone, ih ha.2]
    rfl

/-- A text that begins with a mark is cut there, and next behind the mark. -/
theorem sections_line (mark : Mark) (t : Text) :
    sections (mark.line ++ t) = ([], (mark, t.sections.1) :: t.sections.2) := by
  have hat : Mark.at? (mark.line ++ t) = some mark :=
    Mark.at?_eq_some.mpr (List.prefix_append mark.line t)
  obtain ⟨word, hword, hclear⟩ := mark.exists_line_eq
  rw [hword, List.cons_append] at hat ⊢
  rw [sections, hat, sections_append (clear_of_notMem hclear)]
  simp [hword]

/-- The sections of a text make it up. -/
theorem flatten_sections (t : Text) :
    t.sections.1 ++ t.sections.2.flatMap (fun s => s.1.line ++ s.2) = t := by
  induction t with
  | nil => rfl
  | cons c rest ih =>
    cases hat : Mark.at? (c :: rest) with
    | none =>
      rw [sections, hat]
      exact congrArg (c :: ·) ih
    | some mark =>
      obtain ⟨t, ht⟩ := Mark.at?_eq_some.mp hat
      obtain ⟨word, hword, hclear⟩ := mark.exists_line_eq
      have hrest : rest = word ++ t := by
        rw [hword, List.cons_append, List.cons.injEq] at ht
        exact ht.2.symm
      rw [hrest, sections_append (clear_of_notMem hclear), List.append_assoc,
        List.append_cancel_left_eq] at ih
      rw [← ht, sections_line, List.flatMap_cons, List.nil_append, List.append_assoc]
      exact congrArg (mark.line ++ ·) ih

end Text

end Lectern
