-- Numbers as the reader takes them, part by part from the last one. A part
-- that may be left out is there exactly if the next code point opens it,
-- since nothing that may come behind a number does.
import Lectern.Proofs.Numerals
import Lectern.Proofs.Yields

namespace Lectern.Json

variable {limits : Limits} {stack : List Frame} {n : Numeral} {part : NumeralPart} {x : Value}

/-- The reader is inside a number. -/
abbrev inNumber (stack : List Frame) (n : Numeral) (part : NumeralPart) : State :=
  ⟨stack, .numeral .start n part⟩

/-! ## The end of a number -/

/-- The number ends here, and the text goes on behind its value. -/
def Ends (limits : Limits) (stack : List Frame) (n : Numeral) (t : Text) (x : Value) : Prop :=
  ∃ v, n.value limits = .ok v ∧ State.Yields limits ⟨stack, .ended v⟩ t x

/-- A number is whole, and then not too long, or its digits do not count. -/
theorem Numeral.value_eq_ok {v : Value} :
    n.value limits = .ok v ↔ n.digits ≤ limits.digits ∧ v = n.denoted := by
  unfold value digits denoted
  by_cases hwhole : n.fraction.count = 0 ∧ n.exponent.count = 0
  · simp only [if_pos hwhole]
    by_cases hlong : limits.digits < n.whole.count
    · rw [if_pos hlong]
      exact ⟨nofun, fun h => absurd h.1 (Nat.not_le.mpr hlong)⟩
    · rw [if_neg hlong, Except.ok.injEq, eq_comm]
      exact ⟨fun h => ⟨Nat.not_lt.mp hlong, h⟩, fun h => h.2⟩
  · simp only [if_neg hwhole, Except.ok.injEq, Nat.zero_le, true_and]
    exact eq_comm

theorem ends_iff {t : Text} :
    Ends limits stack n t x ↔
      n.digits ≤ limits.digits ∧ State.Yields limits ⟨stack, .ended n.denoted⟩ t x := by
  simp only [Ends, Numeral.value_eq_ok]
  constructor
  · rintro ⟨_, ⟨hdigits, rfl⟩, h⟩
    exact ⟨hdigits, h⟩
  · rintro ⟨hdigits, h⟩
    exact ⟨_, ⟨hdigits, rfl⟩, h⟩

/-- The code point goes on no number. -/
structure EndsNumber (c : CodePoint) : Prop where
  digit : c.digit? = none
  point : c ≠ CodePoint.ofChar '.'
  letter : isExponentLetter c = false

theorem endsNumber_of_afterValue {here : Place} {v : Value} {c : CodePoint} {s : State}
    (h : afterValue here stack v c = .ok s) : EndsNumber c := by
  have hc : isSpace c ∨ c = CodePoint.ofChar ',' ∨ c = CodePoint.ofChar ']' ∨
      c = CodePoint.closeBrace := by
    unfold afterValue at h
    grind
  rw [isSpace_iff] at hc
  rcases hc with (rfl | rfl | rfl | rfl) | rfl | rfl | rfl <;>
    exact ⟨by decide, by decide, by decide⟩

theorem Ends.endsNumber {c : CodePoint} {t : Text} (h : Ends limits stack n (c :: t) x) :
    EndsNumber c := by
  obtain ⟨v, _, h⟩ := h
  cases hstep : State.step limits .start ⟨stack, .ended v⟩ c with
  | error f => exact absurd h (not_yields_of_step hstep)
  | ok s => exact endsNumber_of_afterValue hstep

/-- A number ends where the next step is one from its end. -/
theorem yields_iff_ends {s : State} {c : CodePoint} {t : Text}
    (hs : s.step limits .start c = afterNumeral limits .start stack n c) :
    s.Yields limits (c :: t) x ↔ Ends limits stack n (c :: t) x := by
  unfold Ends
  rw [afterNumeral] at hs
  cases hv : n.value limits with
  | error f =>
    rw [hv] at hs
    simp [not_yields_of_step hs]
  | ok v =>
    rw [hv] at hs
    have hended : State.step limits .start ⟨stack, .ended v⟩ c =
        afterValue .start stack v c := rfl
    rw [yields_congr (hs.trans hended.symm)]
    simp

/-! ## Rows of digits -/

/-- The parts of a number that are rows of digits. -/
def NumeralPart.IsRow : NumeralPart → Prop
  | .whole | .fraction | .exponent => True
  | _ => False

/-- The digits of a part. -/
def Numeral.row (n : Numeral) : NumeralPart → Digits
  | .whole => n.whole
  | .fraction => n.fraction
  | .exponent => n.exponent
  | _ => .none

/-- The number with other digits in a part. -/
def Numeral.setRow (n : Numeral) (part : NumeralPart) (d : Digits) : Numeral :=
  match part with
  | .whole => { n with whole := d }
  | .fraction => { n with fraction := d }
  | .exponent => { n with exponent := d }
  | _ => n

theorem NumeralPart.IsRow.step (h : part.IsRow) {c : CodePoint} {k : Nat}
    (hc : c.digit? = some k) :
    State.step limits .start (inNumber stack n part) c =
      .ok (inNumber stack (n.setRow part ((n.row part).push k)) part) := by
  cases part <;> first | exact h.elim | simp [State.step, numeralStep, hc, Numeral.setRow,
    Numeral.row]

theorem yields_foldl (h : part.IsRow) {w : Text} {ds : List Nat}
    (hw : w.map CodePoint.digit? = ds.map some) {t : Text} :
    State.Yields limits (inNumber stack n part) (w ++ t) x ↔
      State.Yields limits (inNumber stack (n.setRow part (ds.foldl Digits.push (n.row part))) part)
        t x := by
  induction w generalizing n ds with
  | nil =>
    obtain rfl : ds = [] := by simpa using hw.symm
    cases part <;> first | exact h.elim | rfl
  | cons c w ih =>
    cases ds with
    | nil => cases hw
    | cons k ds =>
      obtain ⟨hc, hw⟩ := List.cons.inj hw
      rw [List.cons_append, yields_of_step (h.step hc), ih hw]
      cases part <;> first | exact h.elim | rfl

/-- The text does not begin with a digit. -/
def NoDigit (t : Text) : Prop := ∀ c r, t = c :: r → c.digit? = none

/-- The digits at the beginning of a text. -/
theorem exists_row {c : CodePoint} (hc : IsDigit c) (t : Text) :
    ∃ d w rest, Row d (c :: w) ∧ t = w ++ rest ∧ NoDigit rest := by
  have hall : ∀ t : Text, ∃ (w : Text) (ds : List Nat) (rest : Text), t = w ++ rest ∧
      w.map CodePoint.digit? = ds.map some ∧ NoDigit rest := by
    intro t
    induction t with
    | nil => exact ⟨[], [], [], rfl, rfl, nofun⟩
    | cons c t ih =>
      cases hc : c.digit? with
      | none =>
        refine ⟨[], [], c :: t, rfl, rfl, ?_⟩
        rintro _ _ ⟨⟩
        exact hc
      | some k =>
        obtain ⟨w, ds, rest, rfl, hw, hrest⟩ := ih
        exact ⟨c :: w, k :: ds, rest, rfl, by simp [hc, hw], hrest⟩
  obtain ⟨k, hk⟩ := hc
  obtain ⟨w, ds, rest, rfl, hw, hrest⟩ := hall t
  have hds : (c :: w).map CodePoint.digit? = (k :: ds).map some := by simp [hk, hw]
  exact ⟨_, w, rest, .mk (List.cons_ne_nil c w) hds, rfl, hrest⟩

theorem Row.exists_cons {d : Digits} {w : Text} (h : Row d w) :
    ∃ c w', w = c :: w' ∧ IsDigit c := by
  obtain @⟨_, ds, hw, hds⟩ := h
  cases w with
  | nil => exact absurd rfl hw
  | cons c w =>
    cases ds with
    | nil => cases hds
    | cons k ds => exact ⟨c, w, rfl, k, (List.cons.inj hds).1⟩

/-- A row of digits is read from its first one on. -/
theorem yields_row (part : NumeralPart) (h : part.IsRow) {s : State} {c : CodePoint} {w : Text}
    {d : Digits} (hrow : Row d (c :: w))
    (hs : ∀ k, c.digit? = some k →
      s.step limits .start c = .ok (inNumber stack (n.setRow part (Digits.none.push k)) part))
    {t : Text} :
    s.Yields limits (c :: w ++ t) x ↔
      State.Yields limits (inNumber stack (n.setRow part d) part) t x := by
  obtain @⟨_, ds, _, hds⟩ := hrow
  cases ds with
  | nil => cases hds
  | cons k ds =>
    obtain ⟨hc, hw⟩ := List.cons.inj hds
    rw [List.cons_append, yields_of_step (hs k hc), yields_foldl h hw, ← foldl_push]
    cases part <;> first | exact h.elim | rfl

/-- In the state a row of digits has to come, for this part of the number. -/
structure AwaitsRow (limits : Limits) (stack : List Frame) (n : Numeral) (part : NumeralPart)
    (s : State) : Prop where
  isRow : part.IsRow
  digit : ∀ c k, c.digit? = some k →
    s.step limits .start c = .ok (inNumber stack (n.setRow part (Digits.none.push k)) part)
  other : ∀ c, c.digit? = none → ∃ f, s.step limits .start c = .error f
  finish : ∃ f, s.finish limits .start = .error f

theorem AwaitsRow.yields {s : State} (h : AwaitsRow limits stack n part s) {d : Digits} {w : Text}
    (hrow : Row d w) {t : Text} :
    s.Yields limits (w ++ t) x ↔
      State.Yields limits (inNumber stack (n.setRow part d) part) t x := by
  obtain ⟨c, w, rfl, _⟩ := hrow.exists_cons
  exact yields_row part h.isRow hrow (h.digit c)

theorem AwaitsRow.exists_row {s : State} (h : AwaitsRow limits stack n part s) {t : Text}
    (ht : s.Yields limits t x) :
    ∃ d w rest, Row d w ∧ t = w ++ rest ∧ NoDigit rest ∧
      State.Yields limits (inNumber stack (n.setRow part d) part) rest x := by
  cases t with
  | nil =>
    obtain ⟨f, hf⟩ := h.finish
    rw [State.Yields, readFrom, hf] at ht
    cases ht
  | cons c t =>
    cases hc : c.digit? with
    | none =>
      obtain ⟨f, hf⟩ := h.other c hc
      exact absurd ht (not_yields_of_step hf)
    | some k =>
      obtain ⟨d, w, rest, hrow, rfl, hrest⟩ := Json.exists_row ⟨k, hc⟩ t
      exact ⟨d, c :: w, rest, hrow, rfl, hrest, (h.yields hrow).mp ht⟩

theorem awaitsRow_point (hn : n.fraction = .none) :
    AwaitsRow limits stack n .fraction (inNumber stack n (.point .start)) where
  isRow := trivial
  digit c k hc := by simp [State.step, numeralStep, hc, Numeral.setRow, hn]
  other c hc := ⟨numeralFault limits stack n .start, by simp only [State.step, numeralStep, hc]⟩
  finish := ⟨_, rfl⟩

theorem awaitsRow_exponentSign (hn : n.exponent = .none) :
    AwaitsRow limits stack n .exponent (inNumber stack n (.exponentSign .start)) where
  isRow := trivial
  digit c k hc := by simp [State.step, numeralStep, hc, Numeral.setRow, hn]
  other c hc := ⟨numeralFault limits stack n .start, by simp only [State.step, numeralStep, hc]⟩
  finish := ⟨_, rfl⟩

/-! ## Exponents -/

/-- The exponent, if there is one, and the end of the number come next. -/
def EndsInExponent (limits : Limits) (stack : List Frame) (n : Numeral) (t : Text) (x : Value) :
    Prop :=
  ∃ negative d e rest, ExponentPart negative d e ∧ t = e ++ rest ∧
    Ends limits stack { n with exponentNegative := negative, exponent := d } rest x

theorem isExponentLetter_iff {c : CodePoint} :
    isExponentLetter c ↔ c = CodePoint.ofChar 'e' ∨ c = CodePoint.ofChar 'E' := by
  obtain ⟨val, lt⟩ := c
  simp [isExponentLetter, CodePoint.ofChar]

/-- The parts in which a number may end. -/
def NumeralPart.IsComplete : NumeralPart → Prop
  | .zero | .whole | .fraction | .exponent => True
  | _ => False

theorem yields_nil (part : NumeralPart) (h : part.IsComplete) :
    State.Yields limits (inNumber stack n part) [] x ↔ Ends limits stack n [] x := by
  rw [Ends, State.Yields, readFrom]
  cases hv : n.value limits with
  | error f =>
    have hend : State.finish limits .start (inNumber stack n part) = .error f := by
      cases part <;> first | exact h.elim | simp only [State.finish, hv]
    simp [hend]
  | ok v =>
    have hend : State.finish limits .start (inNumber stack n part) = endWith .start stack v := by
      cases part <;> first | exact h.elim | simp only [State.finish, hv]
    rw [hend]
    simp only [Except.ok.injEq, exists_eq_left']
    rfl

/-- What ends in a value can be read from a part in which the number may end. -/
theorem Ends.yields (part : NumeralPart) (h : part.IsComplete) {t : Text}
    (ht : Ends limits stack n t x) :
    State.Yields limits (inNumber stack n part) t x := by
  cases t with
  | nil => exact (yields_nil part h).mpr ht
  | cons c t =>
    obtain ⟨hdigit, hpoint, hletter⟩ := ht.endsNumber
    refine (yields_iff_ends ?_).mpr ht
    cases part <;> first | exact h.elim | simp [State.step, numeralStep, hdigit, hpoint, hletter]

theorem ends_of_exponent {t : Text} (ht : NoDigit t)
    (h : State.Yields limits (inNumber stack n .exponent) t x) : Ends limits stack n t x := by
  cases t with
  | nil => exact (yields_nil .exponent trivial).mp h
  | cons c t =>
    refine (yields_iff_ends ?_).mp h
    simp [State.step, numeralStep, ht c t rfl]

/-- Behind the letter of an exponent comes its sign, or nothing in its place. -/
theorem yields_letter (hn : n.exponentNegative = false) {t : Text} :
    State.Yields limits (inNumber stack n (.letter .start)) t x ↔
      ∃ negative sign rest, ExponentSign negative sign ∧ t = sign ++ rest ∧
        State.Yields limits
          (inNumber stack { n with exponentNegative := negative } (.exponentSign .start))
          rest x := by
  have hplus : State.step limits .start (inNumber stack n (.letter .start))
      (CodePoint.ofChar '+') = .ok (inNumber stack n (.exponentSign .start)) := rfl
  have hminus : State.step limits .start (inNumber stack n (.letter .start))
      (CodePoint.ofChar '-') =
        .ok (inNumber stack { n with exponentNegative := true } (.exponentSign .start)) := rfl
  have hkeep : { n with exponentNegative := false } = n := by rw [← hn]
  constructor
  · intro h
    cases t with
    | nil => cases h
    | cons c t =>
      by_cases hcminus : c = CodePoint.ofChar '-'
      · subst hcminus
        exact ⟨true, _, t, .minus, rfl, (yields_of_step hminus).mp h⟩
      by_cases hcplus : c = CodePoint.ofChar '+'
      · subst hcplus
        exact ⟨false, _, t, .plus, rfl, hkeep ▸ (yields_of_step hplus).mp h⟩
      · refine ⟨false, [], c :: t, .none, rfl, ?_⟩
        rw [hkeep]
        refine (yields_congr ?_).mp h
        cases hc : c.digit? <;> simp [State.step, numeralStep, hc, hcminus, hcplus]
  · rintro ⟨negative, sign, rest, hsign, rfl, h⟩
    cases hsign with
    | minus => exact (yields_of_step hminus).mpr h
    | plus => exact (yields_of_step hplus).mpr (hkeep ▸ h)
    | none =>
      rw [hkeep] at h
      cases rest with
      | nil => cases h
      | cons c rest =>
        have hcminus : c ≠ CodePoint.ofChar '-' := by
          rintro rfl
          exact not_yields_of_step rfl h
        have hcplus : c ≠ CodePoint.ofChar '+' := by
          rintro rfl
          exact not_yields_of_step rfl h
        refine (yields_congr ?_).mpr h
        cases hc : c.digit? <;> simp [State.step, numeralStep, hc, hcminus, hcplus]

/-- Behind the letter of an exponent come its sign and its digits, up to the end
of the number. -/
theorem yields_letter_row (hn : n.exponentNegative = false) (hn' : n.exponent = .none) {t : Text} :
    State.Yields limits (inNumber stack n (.letter .start)) t x ↔
      ∃ negative d sign w rest, ExponentSign negative sign ∧ Row d w ∧ t = sign ++ (w ++ rest) ∧
        Ends limits stack { n with exponentNegative := negative, exponent := d } rest x := by
  have hawaits : ∀ negative, AwaitsRow limits stack { n with exponentNegative := negative }
      .exponent (inNumber stack { n with exponentNegative := negative } (.exponentSign .start)) :=
    fun _ => awaitsRow_exponentSign hn'
  rw [yields_letter hn]
  constructor
  · rintro ⟨negative, sign, _, hsign, rfl, h⟩
    obtain ⟨d, w, rest, hrow, rfl, hrest, h⟩ := (hawaits negative).exists_row h
    exact ⟨negative, d, sign, w, rest, hsign, hrow, rfl, ends_of_exponent hrest h⟩
  · rintro ⟨negative, d, sign, w, rest, hsign, hrow, rfl, h⟩
    exact ⟨negative, sign, w ++ rest, hsign, rfl,
      ((hawaits negative).yields hrow).mpr (h.yields .exponent trivial)⟩

theorem step_letter {c : CodePoint} (hc : isExponentLetter c)
    (hpart : part = .zero ∨ part = .whole ∨ part = .fraction) :
    State.step limits .start (inNumber stack n part) c =
      .ok (inNumber stack n (.letter .start)) := by
  have hdigit : c.digit? = none := digit?_eq_none.mpr (not_isDigit_of_isExponentLetter hc)
  have hpoint : c ≠ CodePoint.ofChar '.' := by
    rintro rfl
    exact absurd hc (by decide)
  rcases hpart with rfl | rfl | rfl <;> simp [State.step, numeralStep, hc, hdigit, hpoint]

/-- What comes behind a part in which the number may end is an exponent or the
end of the number, if it is nothing that belongs to the part. -/
theorem yields_exponent (hn : n.exponentNegative = false) (hn' : n.exponent = .none)
    (hpart : part = .zero ∨ part = .whole ∨ part = .fraction) {t : Text}
    (hafter : ∀ c r, t = c :: r → isExponentLetter c = false →
      State.step limits .start (inNumber stack n part) c = afterNumeral limits .start stack n c) :
    State.Yields limits (inNumber stack n part) t x ↔ EndsInExponent limits stack n t x := by
  have hkeep : { n with exponentNegative := false, exponent := .none } = n := by
    rw [← hn, ← hn']
  have hends : Ends limits stack n t x → EndsInExponent limits stack n t x := by
    intro h
    exact ⟨false, .none, [], t, .none, rfl, hkeep ▸ h⟩
  cases t with
  | nil =>
    have hcomplete : part.IsComplete := by rcases hpart with rfl | rfl | rfl <;> trivial
    rw [yields_nil part hcomplete]
    refine ⟨hends, ?_⟩
    rintro ⟨negative, d, e, rest, he, ht, h⟩
    obtain ⟨rfl, rfl⟩ := List.append_eq_nil_iff.mp ht.symm
    cases he
    exact hkeep ▸ h
  | cons c t =>
    cases hc : isExponentLetter c with
    | false =>
      rw [yields_iff_ends (hafter c t rfl hc)]
      refine ⟨hends, ?_⟩
      rintro ⟨negative, d, e, rest, he, ht, h⟩
      cases he with
      | none =>
        obtain rfl : rest = c :: t := ht.symm
        exact hkeep ▸ h
      | row hletter hsign hrow =>
        obtain ⟨rfl, _⟩ := List.cons.inj ht
        rw [isExponentLetter_iff.mpr hletter] at hc
        cases hc
    | true =>
      rw [yields_of_step (step_letter hc hpart), yields_letter_row hn hn']
      constructor
      · rintro ⟨negative, d, sign, w, rest, hsign, hrow, rfl, h⟩
        exact ⟨negative, d, _, rest, .row (isExponentLetter_iff.mp hc) hsign hrow, by simp, h⟩
      · rintro ⟨negative, d, e, rest, he, ht, h⟩
        cases he with
        | none =>
          obtain rfl : rest = c :: t := ht.symm
          rw [h.endsNumber.letter] at hc
          cases hc
        | @row _ _ _ sign w hletter hsign hrow =>
          obtain ⟨rfl, rfl⟩ := List.cons.inj ht
          exact ⟨negative, d, sign, w, rest, hsign, hrow, List.append_assoc .., h⟩

/-! ## Fractions -/

/-- The fraction and the exponent, as far as they are there, and the end of the
number come next. -/
def EndsInFraction (limits : Limits) (stack : List Frame) (n : Numeral) (t : Text) (x : Value) :
    Prop :=
  ∃ d f rest, FractionPart d f ∧ t = f ++ rest ∧
    EndsInExponent limits stack { n with fraction := d } rest x

theorem EndsInExponent.endsPart {c : CodePoint} {t : Text}
    (h : EndsInExponent limits stack n (c :: t) x) :
    c.digit? = none ∧ c ≠ CodePoint.ofChar '.' := by
  obtain ⟨negative, d, e, rest, he, ht, hends⟩ := h
  cases he with
  | none =>
    obtain rfl : rest = c :: t := ht.symm
    exact ⟨hends.endsNumber.digit, hends.endsNumber.point⟩
  | row hletter hsign hrow =>
    obtain ⟨rfl, _⟩ := List.cons.inj ht
    rcases hletter with rfl | rfl <;> decide

/-- Behind the digits of a fraction. -/
theorem yields_fraction (hn : n.exponentNegative = false) (hn' : n.exponent = .none) {t : Text}
    (ht : NoDigit t) :
    State.Yields limits (inNumber stack n .fraction) t x ↔ EndsInExponent limits stack n t x :=
  yields_exponent hn hn' (.inr (.inr rfl)) fun c r hcr hc => by
    simp [State.step, numeralStep, ht c r hcr, hc]

/-- Behind the digits before the point. -/
theorem yields_whole (hn : n.exponentNegative = false) (hn' : n.exponent = .none)
    (hn'' : n.fraction = .none) (hpart : part = .zero ∨ part = .whole) {t : Text}
    (ht : part = .whole → NoDigit t) :
    State.Yields limits (inNumber stack n part) t x ↔ EndsInFraction limits stack n t x := by
  have hkeep : { n with fraction := .none } = n := by rw [← hn'']
  by_cases hpoint : ∃ r, t = CodePoint.ofChar '.' :: r
  · obtain ⟨t, rfl⟩ := hpoint
    have hstep : State.step limits .start (inNumber stack n part) (CodePoint.ofChar '.') =
        .ok (inNumber stack n (.point .start)) := by
      rcases hpart with rfl | rfl <;> rfl
    have hfraction : ∀ d {t : Text}, NoDigit t →
        (State.Yields limits (inNumber stack { n with fraction := d } .fraction) t x ↔
          EndsInExponent limits stack { n with fraction := d } t x) :=
      fun _ _ ht => yields_fraction (by exact hn) (by exact hn') ht
    rw [yields_of_step hstep]
    constructor
    · intro h
      obtain ⟨d, w, rest, hrow, rfl, hrest, h⟩ := (awaitsRow_point hn'').exists_row h
      exact ⟨d, _, rest, .row hrow, rfl, (hfraction d hrest).mp h⟩
    · rintro ⟨d, f, rest, hf, hft, h⟩
      cases hf with
      | none =>
        obtain rfl : rest = CodePoint.ofChar '.' :: t := hft.symm
        exact absurd rfl h.endsPart.2
      | @row _ w hrow =>
        obtain ⟨_, rfl⟩ := List.cons.inj hft
        have hrest : NoDigit rest := by
          rintro c r rfl
          exact h.endsPart.1
        exact ((awaitsRow_point hn'').yields hrow).mpr ((hfraction d hrest).mpr h)
  · have hpart' : part = .zero ∨ part = .whole ∨ part = .fraction := by tauto
    have hexponent : State.Yields limits (inNumber stack n part) t x ↔
        EndsInExponent limits stack n t x := by
      refine yields_exponent hn hn' hpart' fun c r hcr hc => ?_
      have hcpoint : c ≠ CodePoint.ofChar '.' := by
        rintro rfl
        exact hpoint ⟨r, hcr⟩
      rcases hpart with rfl | rfl
      · simp [State.step, numeralStep, hcpoint, hc]
      · simp [State.step, numeralStep, ht rfl c r hcr, hcpoint, hc]
    rw [hexponent]
    constructor
    · exact fun h => ⟨.none, [], t, .none, rfl, hkeep ▸ h⟩
    · rintro ⟨d, f, rest, hf, rfl, h⟩
      cases hf with
      | none => exact hkeep ▸ h
      | row hrow => exact absurd ⟨_, rfl⟩ hpoint

/-! ## Numbers -/

theorem EndsInFraction.noDigit {t : Text} (h : EndsInFraction limits stack n t x) : NoDigit t := by
  obtain ⟨d, f, rest, hf, rfl, h⟩ := h
  cases hf with
  | none =>
    rintro c r rfl
    exact h.endsPart.1
  | row hrow =>
    rintro c r hcr
    obtain ⟨rfl, _⟩ := List.cons.inj hcr
    rfl

/-- The lower infinity goes on behind its sign with a letter. -/
theorem yields_sign_infinity {negative : Bool} {t : Text} :
    State.Yields limits (inNumber stack (.ofSign negative) .sign) (CodePoint.ofChar 'I' :: t) x ↔
      ∃ rest, CodePoint.ofChar 'I' :: t = Text.ofString "Infinity" ++ rest ∧
        State.Yields limits ⟨stack, .ended (.float Binary64.negativeInfinity)⟩ rest x := by
  have hstep : State.step limits .start (inNumber stack (.ofSign negative) .sign)
      (CodePoint.ofChar 'I') = .ok ⟨stack, .literal .start (Text.ofString "nfinity")
        (.float Binary64.negativeInfinity)⟩ := rfl
  have htext : ∀ rest : Text, Text.ofString "Infinity" ++ rest =
      CodePoint.ofChar 'I' :: (Text.ofString "nfinity" ++ rest) := fun _ => rfl
  rw [yields_of_step hstep, yields_literal stack (by decide)]
  simp only [htext, List.cons.injEq, true_and]

/-- A zero before the point stands alone. -/
theorem yields_sign_zero {negative : Bool} {t : Text} :
    State.Yields limits (inNumber stack (.ofSign negative) .sign) (CodePoint.ofChar '0' :: t) x ↔
      EndsInFraction limits stack { Numeral.ofSign negative with whole := ⟨0, 1⟩ } t x := by
  have hstep : State.step limits .start (inNumber stack (.ofSign negative) .sign)
      (CodePoint.ofChar '0') =
        .ok (inNumber stack { Numeral.ofSign negative with whole := ⟨0, 1⟩ } .zero) := rfl
  rw [yields_of_step hstep]
  exact yields_whole rfl rfl rfl (.inl rfl) fun h => by cases h

theorem yields_sign_row {negative : Bool} {c : CodePoint} {w t : Text} {d : Digits}
    (hrow : Row d (c :: w)) (hc : c ≠ CodePoint.ofChar '0') (ht : NoDigit t) :
    State.Yields limits (inNumber stack (.ofSign negative) .sign) (c :: w ++ t) x ↔
      EndsInFraction limits stack { Numeral.ofSign negative with whole := d } t x := by
  have hstep : ∀ k, c.digit? = some k →
      State.step limits .start (inNumber stack (.ofSign negative) .sign) c =
        .ok (inNumber stack ((Numeral.ofSign negative).setRow .whole (Digits.none.push k))
          .whole) := by
    intro k hk
    have hk0 : k ≠ 0 := by
      rintro rfl
      exact hc (eq_zero_of_digit? hk)
    simp [State.step, numeralStep, hk, hk0, Numeral.setRow, Numeral.ofSign]
  rw [yields_row .whole trivial hrow hstep]
  exact yields_whole rfl rfl rfl (.inr rfl) fun _ => ht

/-- Behind a sign come the digits before the point, or the rest of a word. -/
theorem yields_sign {negative : Bool} {t : Text} :
    State.Yields limits (inNumber stack (.ofSign negative) .sign) t x ↔
      (∃ rest, t = Text.ofString "Infinity" ++ rest ∧
        State.Yields limits ⟨stack, .ended (.float Binary64.negativeInfinity)⟩ rest x) ∨
      ∃ d w rest, WholePart d w ∧ t = w ++ rest ∧
        EndsInFraction limits stack { Numeral.ofSign negative with whole := d } rest x := by
  constructor
  · intro h
    cases t with
    | nil => cases h
    | cons c t =>
      cases hc : c.digit? with
      | some k =>
        right
        by_cases hc0 : c = CodePoint.ofChar '0'
        · subst hc0
          exact ⟨_, _, t, .zero, rfl, yields_sign_zero.mp h⟩
        · obtain ⟨d, w, rest, hrow, rfl, hrest⟩ := exists_row ⟨k, hc⟩ t
          exact ⟨d, c :: w, rest, .row hrow (by simpa using hc0), rfl,
            (yields_sign_row hrow hc0 hrest).mp h⟩
      | none =>
        by_cases hcI : c = CodePoint.ofChar 'I'
        · subst hcI
          exact .inl (yields_sign_infinity.mp h)
        · refine absurd h (not_yields_of_step (f := .malformed .noValue .start) ?_)
          simp [State.step, numeralStep, hc, hcI]
  · rintro (⟨rest, rfl, h⟩ | ⟨d, w, rest, hw, rfl, h⟩)
    · exact yields_sign_infinity.mpr ⟨rest, rfl, h⟩
    · cases hw with
      | zero => exact yields_sign_zero.mpr h
      | row hrow hhead =>
        obtain ⟨c, w, rfl, _⟩ := hrow.exists_cons
        exact (yields_sign_row hrow (by simpa using hhead) h.noDigit).mpr h

end Lectern.Json
