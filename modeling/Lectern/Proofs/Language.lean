-- The language of the reader. It reads exactly the texts of the grammar and
-- gives each the value that it denotes, as far as the text keeps within the
-- limits, and it refuses every other text, unless it breaks off at a number
-- that is too long.
import Lectern.Proofs.Refusals
import Lectern.Proofs.Spellings

namespace Lectern.Json

/-! ## Other limits -/

/-- The result stays as it is, or a number is too long for it. -/
def StaysOrBreaksOff {α : Type} (r r' : Except Fault α) : Prop :=
  ∀ a, r = .ok a → r' = .ok a ∨ ∃ n, r' = .error (.longNumber n)

variable {limits limits' : Limits}

theorem Numeral.value_staysOrBreaksOff (limits limits' : Limits) (n : Numeral) :
    StaysOrBreaksOff (n.value limits) (n.value limits') := by
  unfold value
  intro v h
  by_cases hwhole : n.fraction.count = 0 ∧ n.exponent.count = 0
  · simp only [if_pos hwhole] at h ⊢
    split at h
    · cases h
    · cases h
      split
      · exact .inr ⟨_, rfl⟩
      · exact .inl rfl
  · simp only [if_neg hwhole] at h ⊢
    exact .inl h

theorem staysOrBreaksOff_rfl {α : Type} (r : Except Fault α) : StaysOrBreaksOff r r :=
  fun _ => .inl

theorem afterNumeral_staysOrBreaksOff (limits limits' : Limits) (here : Place)
    (stack : List Frame) (n : Numeral) (c : CodePoint) :
    StaysOrBreaksOff (afterNumeral limits here stack n c)
      (afterNumeral limits' here stack n c) := by
  unfold afterNumeral
  intro s h
  cases hv : n.value limits with
  | error f =>
    rw [hv] at h
    cases h
  | ok v =>
    rw [hv] at h
    rcases n.value_staysOrBreaksOff limits limits' v hv with hv' | ⟨m, hv'⟩
    · rw [hv']
      exact .inl h
    · rw [hv']
      exact .inr ⟨m, rfl⟩

theorem numeralStep_staysOrBreaksOff (limits limits' : Limits) (here : Place)
    (stack : List Frame) (start : Place) (n : Numeral) (part : NumeralPart) (c : CodePoint) :
    StaysOrBreaksOff (numeralStep limits here stack start n part c)
      (numeralStep limits' here stack start n part c) := by
  intro s h
  have hafter := afterNumeral_staysOrBreaksOff limits limits' here stack n c s
  unfold numeralStep at h ⊢
  cases part <;> grind

theorem State.step_staysOrBreaksOff (hdepth : limits.depth = limits'.depth) (here : Place)
    (s : State) (c : CodePoint) :
    StaysOrBreaksOff (s.step limits here c) (s.step limits' here c) := by
  obtain ⟨stack, phase⟩ := s
  have hstart : ∀ stack, startValue limits here stack c = startValue limits' here stack c := by
    intro stack
    simp only [startValue, hdepth]
  cases phase with
  | numeral start n part =>
    exact numeralStep_staysOrBreaksOff limits limits' here stack start n part c
  | value | firstItem =>
    simp only [step, hstart]
    exact staysOrBreaksOff_rfl _
  | _ => exact staysOrBreaksOff_rfl _

theorem State.finish_staysOrBreaksOff (limits limits' : Limits) (here : Place) (s : State) :
    StaysOrBreaksOff (s.finish limits here) (s.finish limits' here) := by
  obtain ⟨stack, phase⟩ := s
  cases phase with
  | numeral start n part =>
    intro v h
    have hvalue := n.value_staysOrBreaksOff limits limits'
    unfold finish at h ⊢
    unfold StaysOrBreaksOff at hvalue
    cases part <;> grind
  | _ => exact staysOrBreaksOff_rfl _

/-- Where only the digits of whole numbers are limited in another way, the
reader gives the same value or breaks off. -/
theorem readFrom_staysOrBreaksOff (hdepth : limits.depth = limits'.depth) (here : Place) (s : State)
    (t : Text) : StaysOrBreaksOff (readFrom limits here s t) (readFrom limits' here s t) := by
  induction t generalizing here s with
  | nil => exact State.finish_staysOrBreaksOff limits limits' here s
  | cons c t ih =>
    intro v h
    rw [readFrom] at h ⊢
    cases hs : s.step limits here c with
    | error f =>
      rw [hs] at h
      cases h
    | ok s' =>
      rw [hs] at h
      rcases State.step_staysOrBreaksOff hdepth here s c s' hs with hs' | ⟨n, hs'⟩
      · rw [hs']
        exact ih (here.next c) s' v h
      · rw [hs']
        exact .inr ⟨n, rfl⟩

theorem read_staysOrBreaksOff (hdepth : limits.depth = limits'.depth) (t : Text) :
    StaysOrBreaksOff (read limits t) (read limits' t) := by
  unfold read
  split
  · exact staysOrBreaksOff_rfl _
  · exact readFrom_staysOrBreaksOff hdepth .start .start t

/-! ## What a text denotes -/

theorem DenotesWithin.denotes {t : Text} {v : Value} (h : DenotesWithin limits t v) :
    Denotes t v := by
  obtain ⟨tree, hspells, _, _, rfl⟩ := h
  exact ⟨tree, hspells, rfl⟩

/-- A text denotes one value at most, since a reader with limits that are wide
enough gives it one. -/
theorem Denotes.unique {t : Text} {v w : Value} (hv : Denotes t v) (hw : Denotes t w) : v = w := by
  obtain ⟨a, ha, rfl⟩ := hv
  obtain ⟨b, hb, rfl⟩ := hw
  have hreads : ∀ tree, Spells (.element tree) t → tree.depth ≤ max a.depth b.depth →
      tree.digits ≤ max a.digits b.digits →
        read ⟨max a.depth b.depth, max a.digits b.digits⟩ t = .ok tree.value :=
    fun tree htree hdepth hdigits => read_eq_ok_iff.mpr ⟨tree, htree, hdepth, hdigits, rfl⟩
  have hreada := hreads a ha (le_max_left ..) (le_max_left ..)
  have hreadb := hreads b hb (le_max_right ..) (le_max_right ..)
  rw [hreada] at hreadb
  exact Except.ok.inj hreadb

/-- Every array and object has its brackets in the text. -/
theorem Spells.depth_le {phrase : Phrase} {t : Text} (h : Spells phrase t) :
    phrase.depth ≤ t.length := by
  induction h <;>
    simp_all only [Phrase.depth, Tree.depth, itemsDepth, membersDepth, List.length_append,
      List.length_cons] <;>
    omega

theorem nestedWithin_length (t : Text) : NestedWithin t.length t := fun _ h => h.depth_le

/-- A text in which no row of digits is too long holds no long number. -/
theorem HoldsLongNumber.exists_longRow {t : Text} {n : Nat} (h : HoldsLongNumber limits n t) :
    ∃ digits : Text, digits <:+: t ∧ (∀ c ∈ digits, IsDigit c) ∧ limits.digits < digits.length := by
  obtain @⟨before, sign, digits, rest, _, _, _, _, hdigits, _, hlength, hlong, _⟩ := h
  exact ⟨digits, ⟨before ++ sign, rest, by simp⟩, hdigits, hlength ▸ hlong⟩

theorem HoldsLongNumber.lt_length {t : Text} {n : Nat} (h : HoldsLongNumber limits n t) :
    limits.digits < t.length := by
  obtain ⟨digits, hinside, _, hlong⟩ := h.exists_longRow
  exact hlong.trans_le hinside.length_le

/-- A text that keeps within the limits is read exactly if it denotes a value. -/
theorem parse_eq_ok_iff {t : Text} (hnested : NestedWithin Limits.standard.depth t)
    (hlong : ∀ n, ¬ HoldsLongNumber .standard n t) {v : Value} :
    parse t = .ok v ↔ Denotes t v := by
  constructor
  · exact fun h => (read_eq_ok_iff.mp h).denotes
  · rintro ⟨tree, hspells, rfl⟩
    have hread : read ⟨Limits.standard.depth, tree.digits⟩ t = .ok tree.value :=
      read_eq_ok_iff.mpr ⟨tree, hspells, hnested tree hspells, le_rfl, rfl⟩
    have hdepth : (⟨Limits.standard.depth, tree.digits⟩ : Limits).depth = Limits.standard.depth :=
      rfl
    rcases read_staysOrBreaksOff hdepth t tree.value hread with h | ⟨n, h⟩
    · exact h
    · exact absurd ((read_eq_longNumber (by decide)).mp h) (hlong n)

/-- A text that keeps within the limits is refused exactly if it denotes
nothing. -/
theorem parse_refuses_iff {t : Text} (hnested : NestedWithin Limits.standard.depth t)
    (hlong : ∀ n, ¬ HoldsLongNumber .standard n t) :
    (∃ f, parse t = .error f ∧ f.refusal? = some .malformedInput) ↔ ∀ v, ¬ Denotes t v := by
  simp only [← parse_eq_ok_iff hnested hlong]
  cases h : parse t with
  | ok v => simp
  | error f =>
    have hf : ∀ n, f ≠ .longNumber n := by
      rintro n rfl
      exact hlong n (Conversion.parse_eq_longNumber.mp h)
    simp [Json.Fault.refusal?_of_ne hf]

/-- The reader gives a value to exactly those texts that denote it within the
limits. Where the limits are kept, a text is read if it denotes a value and
refused if it denotes none. All spellings of a tree have the same value, with
whatever white space and whatever escapes they are written. -/
theorem a_text_is_read_iff_it_denotes_a_value (t : Text) :
    (∀ v, parse t = .ok v ↔ DenotesWithin .standard t v) ∧
      (NestedWithin Limits.standard.depth t → (∀ n, ¬ HoldsLongNumber .standard n t) →
        (∀ v, parse t = .ok v ↔ Denotes t v) ∧
          ((∃ f, parse t = .error f ∧ f.refusal? = some .malformedInput) ↔
            ∀ v, ¬ Denotes t v)) ∧
      ∀ (tree : Tree) (t' : Text), Spells (.element tree) t → Spells (.element tree) t' →
        tree.depth ≤ Limits.standard.depth → tree.digits ≤ Limits.standard.digits →
          parse t = .ok tree.value ∧ parse t' = .ok tree.value := by
  refine ⟨fun v => read_eq_ok_iff, fun hnested hlong => ?_, ?_⟩
  · exact ⟨fun v => parse_eq_ok_iff hnested hlong, parse_refuses_iff hnested hlong⟩
  · intro tree t' ht ht' hdepth hdigits
    exact ⟨read_eq_ok_iff.mpr ⟨tree, ht, hdepth, hdigits, rfl⟩,
      read_eq_ok_iff.mpr ⟨tree, ht', hdepth, hdigits, rfl⟩⟩

/-- A text in which a name comes again, with a pair of escapes and the first
half of another one. -/
def repeated : Text :=
  Text.ofString " \x7b\"a\": 1e1,\t\"b\": \"\\ud83d\\ude00\\ud83d\", \"a\":[NaN, -0 ]\x7d\n"

/-- The value of that text. -/
def repeatedValue : Value :=
  .object [(Text.ofString "a", .array [.float Binary64.nan, .int 0]),
    (Text.ofString "b", .string [CodePoint.ofNat 0x1F600, CodePoint.ofNat 0xD83D])]

theorem a_text_is_read_iff_it_denotes_a_value_repeated :
    (parse repeated = .ok repeatedValue ∧ Denotes repeated repeatedValue) ∧
      (parse (Text.ofString "[1,]") = .error (.malformed .noValue ⟨3, 1, 4⟩) ∧
        ∀ v, ¬ Denotes (Text.ofString "[1,]") v) ∧
      parse (Text.ofString "\"A\"") = .ok (.string ['A']) ∧
        parse (Text.ofString " \"\\u0041\"") = .ok (.string ['A']) := by
  -- A short text keeps within the limits, whatever it is.
  have hkeeps : ∀ t : Text, t.length ≤ Limits.standard.depth →
      NestedWithin Limits.standard.depth t ∧ ∀ n, ¬ HoldsLongNumber .standard n t := by
    intro t ht
    refine ⟨fun tree h => (nestedWithin_length t tree h).trans ht, fun n h => ?_⟩
    exact absurd h.lt_length (Nat.not_lt.mpr (ht.trans (by decide)))
  have hrepeated : parse repeated = .ok repeatedValue := rfl
  have hrefused : parse (Text.ofString "[1,]") = .error (.malformed .noValue ⟨3, 1, 4⟩) := rfl
  obtain ⟨hnested, hlong⟩ := hkeeps repeated (by decide)
  obtain ⟨hnested', hlong'⟩ := hkeeps (Text.ofString "[1,]") (by decide)
  have hnone : Spaces [] := nofun
  have hplain : Spells (.element (.string ['A'])) (Text.ofString "\"A\"") := by
    have hbody : StringBody ['A'] ['A'] := .plain (by decide) (by decide) (by decide) .nil
    exact Spells.element hnone (.string (.mk hbody)) hnone
  have hescaped : Spells (.element (.string ['A'])) (Text.ofString " \"\\u0041\"") := by
    have hunit : UnitEscape [CodePoint.backslash, 'u', '0', '0', '4', '1']
        (CodePoint.ofNat (((0 * 16 + 0) * 16 + 4) * 16 + 1)) := .mk rfl rfl rfl rfl
    have hbody : StringBody ([CodePoint.backslash, 'u', '0', '0', '4', '1'] ++ []) ['A'] :=
      .unit hunit (fun h => absurd h.1 (by decide)) .nil
    have hspace : Spaces [' '] := hnone.cons (by decide)
    exact Spells.element hspace (.string (.mk hbody)) hnone
  refine ⟨⟨hrepeated, ?_⟩, ⟨hrefused, ?_⟩, ?_⟩
  · exact (((a_text_is_read_iff_it_denotes_a_value repeated).2.1 hnested hlong).1 _).mp hrepeated
  · exact ((a_text_is_read_iff_it_denotes_a_value (Text.ofString "[1,]")).2.1 hnested' hlong').2.mp
      ⟨_, hrefused, rfl⟩
  · exact (a_text_is_read_iff_it_denotes_a_value (Text.ofString "\"A\"")).2.2 (.string ['A']) _
      hplain hescaped (by decide) (by decide)

end Lectern.Json
