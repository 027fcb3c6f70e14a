-- Control words as they are read back from markup. Some of them open and
-- close environments, and these are brackets, which may be nested or not.
import Mathlib.Data.List.TakeWhile
import Lectern.Text.Blank
import Lectern.Text.Upper

namespace Lectern

/-! ## Reading control words -/

/-- The letters that a control word is made of. -/
def CodePoint.isLetter (c : CodePoint) : Bool :=
  (0x41 ≤ c.val && c.val ≤ 0x5A) || (0x61 ≤ c.val && c.val ≤ 0x7A)

theorem CodePoint.not_isLetter_backslash : backslash.isLetter = false := by decide

theorem CodePoint.not_isBlank_of_isLetter {c : CodePoint} (h : c.isLetter) : c.isBlank = false := by
  have hc : 0x41 ≤ c.val ∧ c.val ≤ 0x7A := by
    simp only [isLetter, Bool.or_eq_true, Bool.and_eq_true, decide_eq_true_eq] at h
    omega
  simp only [isBlank, Bool.or_eq_false_iff, Bool.and_eq_false_iff, decide_eq_false_iff_not,
    beq_eq_false_iff_ne]
  refine ⟨⟨⟨⟨⟨⟨⟨⟨⟨⟨?_, ?_⟩, ?_⟩, ?_⟩, ?_⟩, ?_⟩, ?_⟩, ?_⟩, ?_⟩, ?_⟩, ?_⟩
  all_goals omega

theorem CodePoint.isLetter_upper {c d : CodePoint} (hc : c.isLetter) (hd : d ∈ c.upper) :
    d.isLetter := by
  have hn : c.val < 0x7B := by
    simp only [isLetter, Bool.or_eq_true, Bool.and_eq_true, decide_eq_true_eq] at hc
    omega
  have hall : ∀ n : Fin 0x7B, (ofNat n).isLetter → (ofNat n).upper.all isLetter := by
    decide +kernel
  have hof : ofNat c.val = c := by
    rw [ofNat, dif_pos c.lt]
  have hupper := hall ⟨c.val, hn⟩
  rw [hof] at hupper
  exact List.all_eq_true.mp (hupper hc) d hd

namespace Text

/-- The text is all letters. -/
def Letters (t : Text) : Prop := ∀ c ∈ t, c.isLetter

instance (t : Text) : Decidable t.Letters := inferInstanceAs (Decidable (∀ c ∈ t, c.isLetter))

theorem letters_append {a b : Text} : Letters (a ++ b) ↔ a.Letters ∧ b.Letters :=
  List.forall_mem_append

/-- The text begins with a letter. -/
def OpensWithLetter (t : Text) : Prop := ∃ c rest, t = c :: rest ∧ c.isLetter

instance : (t : Text) → Decidable t.OpensWithLetter
  | [] => isFalse (by
    rintro ⟨c, rest, h, -⟩
    cases h)
  | c :: t => decidable_of_iff (c.isLetter = true) ⟨fun h => ⟨c, t, rfl, h⟩, by
    rintro ⟨_, _, h, hc⟩
    cases h
    exact hc⟩

/-- The control words of a text, each without its backslash. A word takes
all the letters behind the backslash. -/
def controlWords : Text → List Text
  | [] => []
  | c :: rest =>
    if c = CodePoint.backslash then rest.takeWhile CodePoint.isLetter :: controlWords rest
    else controlWords rest

end Text

/-! ## Brackets -/

/-- What a control word does that opens or closes an environment. -/
inductive Bracket
  | opens (name : Text)
  | closes (name : Text)
deriving DecidableEq

/-- How a word begins that opens an environment. -/
def startName : Text := Text.ofString "start"

/-- How a word begins that closes an environment. -/
def stopName : Text := Text.ofString "stop"

namespace Bracket

/-- What a control word does, if it opens or closes an environment. -/
def ofWord? (word : Text) : Option Bracket :=
  if startName <+: word then some (.opens (word.drop startName.length))
  else if stopName <+: word then some (.closes (word.drop stopName.length))
  else none

theorem ofWord?_start (name : Text) : ofWord? (startName ++ name) = some (.opens name) := rfl

theorem ofWord?_stop (name : Text) : ofWord? (stopName ++ name) = some (.closes name) := rfl

/-- The environments that are open after one more bracket, the innermost
first. A bracket can close the innermost only. -/
def step? : List Text → Bracket → Option (List Text)
  | open', .opens name => some (name :: open')
  | top :: open', .closes name => if name = top then some open' else none
  | [], .closes _ => none

end Bracket

/-- The brackets in a text, in reading order. -/
def Text.brackets (t : Text) : List Bracket := t.controlWords.filterMap Bracket.ofWord?

/-! ## Nested brackets -/

/-- Brackets in which each environment is closed by the name that opened
it, and none is closed while one inside it is open. -/
inductive Nested : List Bracket → Prop
  | nil : Nested []
  | wrap {inner rest : List Bracket} (name : Text) (hi : Nested inner) (hr : Nested rest) :
    Nested (.opens name :: (inner ++ .closes name :: rest))

/-- Brackets that close the given environments, from the innermost on, with
nested brackets in front of each and behind the last. -/
def Unwinds : List Text → List Bracket → Prop
  | [], bs => Nested bs
  | name :: names, bs =>
    ∃ inner rest, bs = inner ++ .closes name :: rest ∧ Nested inner ∧ Unwinds names rest

theorem unwinds_wrap {name : Text} {inner rest : List Bracket} {names : List Text}
    (hi : Nested inner) (h : Unwinds names rest) :
    Unwinds names (.opens name :: (inner ++ .closes name :: rest)) := by
  cases names with
  | nil => exact .wrap name hi h
  | cons top names =>
    obtain ⟨inner', rest', rfl, hi', hr⟩ := h
    exact ⟨.opens name :: (inner ++ .closes name :: inner'), rest', by simp, .wrap name hi hi', hr⟩

theorem unwinds_of_foldlM {bs : List Bracket} {names : List Text}
    (h : bs.foldlM Bracket.step? names = some []) : Unwinds names bs := by
  induction bs generalizing names with
  | nil =>
    cases h
    exact .nil
  | cons b bs ih =>
    rw [List.foldlM_cons] at h
    obtain ⟨next, hb, h⟩ := Option.bind_eq_some_iff.mp h
    have hu := ih h
    cases b with
    | opens name =>
      cases hb
      obtain ⟨inner, rest, rfl, hi, hr⟩ := hu
      exact unwinds_wrap hi hr
    | closes name =>
      cases names with
      | nil => cases hb
      | cons top names =>
        by_cases hn : name = top
        · subst hn
          obtain rfl : names = next := by simpa [Bracket.step?] using hb
          exact ⟨[], bs, rfl, .nil, hu⟩
        · simp [Bracket.step?, hn] at hb

/-- Nested brackets leave open what was open before. -/
theorem Nested.foldlM {bs : List Bracket} (h : Nested bs) (names : List Text) :
    bs.foldlM Bracket.step? names = some names := by
  induction h generalizing names with
  | nil => rfl
  | wrap name _ _ hi hr => simp [Bracket.step?, hi, hr]

/-- Brackets are nested if they can be read with a stack, from no open
environment to none. -/
theorem nested_iff {bs : List Bracket} : Nested bs ↔ bs.foldlM Bracket.step? [] = some [] :=
  ⟨fun h => h.foldlM [], unwinds_of_foldlM⟩

theorem Nested.append {as bs : List Bracket} (ha : Nested as) (hb : Nested bs) :
    Nested (as ++ bs) := by
  rw [nested_iff, List.foldlM_append, ha.foldlM]
  exact hb.foldlM []

instance (bs : List Bracket) : Decidable (Nested bs) := decidable_of_iff _ nested_iff.symm

/-! ## Reading one text behind another -/

namespace Text

/-- The text ends in this control word. -/
def EndsIn (t word : Text) : Prop :=
  ∃ before, t = before ++ CodePoint.backslash :: word ∧ word.Letters

/-- No letters behind the word make it open or close an environment. -/
def Inert (word : Text) : Prop := ∀ more, Bracket.ofWord? (word ++ more) = none

/-- A word is inert if it is no beginning of the words that open and close
environments, and does not begin like them. -/
theorem inert_of_not_prefix {word : Text}
    (h : ∀ key ∈ [startName, stopName], ¬ key <+: word ∧ ¬ word <+: key) : word.Inert := by
  intro more
  have hnone : ∀ key ∈ [startName, stopName], ¬ key <+: word ++ more := by
    intro key hk hp
    obtain ⟨hlong, hshort⟩ := h key hk
    rcases List.prefix_or_prefix_of_prefix hp (List.prefix_append word more) with hkey | hword
    · exact hlong hkey
    · exact hshort hword
  unfold Bracket.ofWord?
  rw [if_neg (hnone startName (by simp)), if_neg (hnone stopName (by simp))]

theorem not_opensWithLetter_backslash (t : Text) :
    ¬ OpensWithLetter (CodePoint.backslash :: t) := by
  rintro ⟨c, rest, h, hc⟩
  cases h
  simp [CodePoint.not_isLetter_backslash] at hc

theorem not_opensWithLetter_append {a : Text} (hne : a ≠ []) (h : ¬ a.OpensWithLetter)
    (b : Text) : ¬ OpensWithLetter (a ++ b) := by
  rintro ⟨c, rest, he, hc⟩
  obtain ⟨c', more, rfl⟩ := List.exists_cons_of_ne_nil hne
  cases he
  exact h ⟨c, more, rfl, hc⟩

theorem takeWhile_eq_nil_of_not_opensWithLetter {t : Text} (h : ¬ t.OpensWithLetter) :
    t.takeWhile CodePoint.isLetter = [] := by
  cases t with
  | nil => rfl
  | cons c t =>
    have hc : ¬ c.isLetter := fun hc => h ⟨c, t, rfl, hc⟩
    rw [List.takeWhile_cons, if_neg hc]

theorem EndsIn.cons {t word : Text} (h : t.EndsIn word) (c : CodePoint) :
    EndsIn (c :: t) word := by
  obtain ⟨before, rfl, hw⟩ := h
  exact ⟨c :: before, rfl, hw⟩

/-- The word that the letters behind a backslash make up is read to its end
in front of another text, unless that text begins with a letter. -/
theorem ofWord?_takeWhile_append {a b : Text}
    (h : b.OpensWithLetter → a.Letters → a.Inert) :
    Bracket.ofWord? ((a ++ b).takeWhile CodePoint.isLetter) =
      Bracket.ofWord? (a.takeWhile CodePoint.isLetter) := by
  by_cases ha : a.Letters
  · rw [List.takeWhile_append_of_pos ha, List.takeWhile_eq_self_iff.mpr ha]
    by_cases hb : b.OpensWithLetter
    · have hi := h hb ha
      have hnil := hi []
      rw [List.append_nil] at hnil
      rw [hi, hnil]
    · rw [takeWhile_eq_nil_of_not_opensWithLetter hb, List.append_nil]
  · have hlen : (a.takeWhile CodePoint.isLetter).length ≠ a.length := by
      intro hl
      apply ha
      apply List.takeWhile_eq_self_iff.mp
      exact (List.takeWhile_prefix _).eq_of_length hl
    rw [List.takeWhile_append, if_neg hlen]

/-- The brackets of two texts, one behind the other, are those of the first
and those of the second, if no word at the end of the first is made into
another. -/
theorem brackets_append {a b : Text}
    (h : b.OpensWithLetter → ∀ word, a.EndsIn word → word.Inert) :
    (a ++ b).brackets = a.brackets ++ b.brackets := by
  induction a with
  | nil => rfl
  | cons c a ih =>
    have ih := ih fun hb word hw => h hb word (hw.cons c)
    unfold brackets at ih ⊢
    rw [List.cons_append, controlWords, controlWords]
    by_cases hc : c = CodePoint.backslash
    · subst hc
      have hw := ofWord?_takeWhile_append fun hb ha => h hb a ⟨[], rfl, ha⟩
      rw [if_pos rfl, if_pos rfl, List.filterMap_cons, List.filterMap_cons, hw, ih]
      cases Bracket.ofWord? (a.takeWhile CodePoint.isLetter) <;> rfl
    · rw [if_neg hc, if_neg hc, ih]

theorem brackets_append_of_not_opensWithLetter (a : Text) {b : Text} (h : ¬ b.OpensWithLetter) :
    (a ++ b).brackets = a.brackets ++ b.brackets :=
  brackets_append fun hb => absurd hb h

theorem controlWords_eq_nil {t : Text} (h : CodePoint.backslash ∉ t) : t.controlWords = [] := by
  induction t with
  | nil => rfl
  | cons c t ih =>
    rw [List.mem_cons, not_or] at h
    rw [controlWords, if_neg (Ne.symm h.1), ih h.2]

theorem brackets_eq_nil {t : Text} (h : CodePoint.backslash ∉ t) : t.brackets = [] := by
  unfold brackets
  rw [controlWords_eq_nil h]
  rfl

theorem brackets_append_of_notMem {a : Text} (h : CodePoint.backslash ∉ a) (b : Text) :
    (a ++ b).brackets = b.brackets := by
  rw [brackets_append, brackets_eq_nil h, List.nil_append]
  rintro - word ⟨before, rfl, -⟩
  exact absurd (List.mem_append_right before List.mem_cons_self) h

/-- A word is read together with the letters of the text behind it. -/
theorem brackets_word {word rest : Text} (h : word.Letters) :
    brackets (CodePoint.backslash :: (word ++ rest)) =
      (Bracket.ofWord? (word ++ rest.takeWhile CodePoint.isLetter)).toList ++ rest.brackets := by
  have hrest : (word ++ rest).brackets = rest.brackets := by
    refine brackets_append_of_notMem (fun hm => ?_) rest
    simpa [CodePoint.not_isLetter_backslash] using h _ hm
  unfold brackets at hrest ⊢
  rw [controlWords, if_pos rfl, List.takeWhile_append_of_pos h, List.filterMap_cons, hrest]
  cases Bracket.ofWord? (word ++ rest.takeWhile CodePoint.isLetter) <;> rfl

end Text

end Lectern
