-- Numbers while they are read. What is written of a whole number is its
-- digits, and behind them what belongs to it only if a digit follows. A whole
-- number with too many digits is found out where it ends.
import Lectern.Proofs.Reading

namespace Lectern.Json

variable {limits : Limits}

/-! ## Digits -/

/-- The code point is a digit of base ten. -/
def IsDigit (c : CodePoint) : Prop := ∃ d, c.digit? = some d

theorem digit?_eq_none {c : CodePoint} : c.digit? = none ↔ ¬ IsDigit c := by
  unfold IsDigit
  cases c.digit? <;> simp

theorem IsDigit.ne {c x : CodePoint} (h : IsDigit c) (hx : x.digit? = none) : c ≠ x := by
  rintro rfl
  exact digit?_eq_none.mp hx h

theorem isSpace_of_isDigit {c : CodePoint} (h : IsDigit c) : isSpace c = false := by
  obtain ⟨d, hd⟩ := h
  unfold CodePoint.digit? at hd
  split at hd
  · rename_i hrange
    simp only [isSpace, Bool.or_eq_false_iff, decide_eq_false_iff_not]
    omega
  · cases hd

theorem eq_zero_of_digit? {c : CodePoint} (h : c.digit? = some 0) : c = CodePoint.ofChar '0' := by
  obtain ⟨val, lt⟩ := c
  unfold CodePoint.digit? at h
  split at h
  · rename_i hrange
    simp only [Option.some.injEq] at h
    have hval : val = 0x30 := by
      simp only at hrange h
      omega
    subst hval
    rfl
  · cases h

theorem not_isDigit_of_isExponentLetter {e : CodePoint} (he : isExponentLetter e) :
    ¬ IsDigit e := by
  rintro ⟨d, hd⟩
  unfold CodePoint.digit? at hd
  split at hd
  · simp only [isExponentLetter, Bool.or_eq_true, decide_eq_true_eq] at he
    omega
  · cases hd

/-! ## Whole numbers as they are written -/

/-- The text goes on a whole number that stands in front of it: with one more
digit, with a fraction or with an exponent. -/
inductive GoesOn : Text → Prop
  | digit {c : CodePoint} {rest : Text} (h : IsDigit c) : GoesOn (c :: rest)
  | fraction {c : CodePoint} {rest : Text} (h : IsDigit c) :
    GoesOn (CodePoint.ofChar '.' :: c :: rest)
  | exponent {e c : CodePoint} {rest : Text} (he : isExponentLetter e) (h : IsDigit c) :
    GoesOn (e :: c :: rest)
  | signedExponent {e sign c : CodePoint} {rest : Text} (he : isExponentLetter e)
    (hs : sign = CodePoint.ofChar '+' ∨ sign = CodePoint.ofChar '-') (h : IsDigit c) :
    GoesOn (e :: sign :: c :: rest)

/-- How far the reader is in a number that is whole so far: the digits of the
number, and behind them what belongs to it only if a digit follows. -/
inductive Written : NumeralPart → Text → Text → Prop
  | sign : Written .sign [] []
  | zero : Written .zero [CodePoint.ofChar '0'] []
  | whole {c : CodePoint} {digits : Text} (hc : IsDigit c) (hzero : c ≠ CodePoint.ofChar '0')
    (h : ∀ c ∈ digits, IsDigit c) : Written .whole (c :: digits) []
  | point {part : NumeralPart} {digits : Text} (h : Written part digits []) (place : Place) :
    Written (.point place) digits [CodePoint.ofChar '.']
  | letter {part : NumeralPart} {digits : Text} (h : Written part digits [])
    {e : CodePoint} (he : isExponentLetter e) (place : Place) :
    Written (.letter place) digits [e]
  | exponentSign {digits : Text} {e sign : CodePoint} {place : Place}
    (h : Written (.letter place) digits [e])
    (hs : sign = CodePoint.ofChar '+' ∨ sign = CodePoint.ofChar '-') :
    Written (.exponentSign place) digits [e, sign]

theorem Written.digits {part : NumeralPart} {digits tail : Text} (h : Written part digits tail) :
    (∀ c ∈ digits, IsDigit c) ∧
      (1 < digits.length → digits.head? ≠ some (CodePoint.ofChar '0')) := by
  induction h with
  | sign => exact ⟨nofun, nofun⟩
  | zero =>
    have hzero : IsDigit (CodePoint.ofChar '0') := ⟨0, rfl⟩
    exact ⟨List.forall_mem_singleton.mpr hzero, fun h => absurd h (by decide)⟩
  | whole hc hzero h =>
    refine ⟨List.forall_mem_cons.mpr ⟨hc, h⟩, ?_⟩
    intro _ hhead
    exact hzero (Option.some.inj hhead)
  | point h place ih => exact ih
  | letter h he place ih => exact ih
  | exponentSign h hs ih => exact ih

/-- One digit is a number: the digit zero is a whole one, and any other may
begin a longer one. -/
theorem written_digit {c : CodePoint} {d : Nat} (hd : c.digit? = some d) :
    Written (if d = 0 then .zero else .whole) [c] [] := by
  by_cases h0 : d = 0
  · subst h0
    rw [if_pos rfl, eq_zero_of_digit? hd]
    exact .zero
  · rw [if_neg h0]
    have hzero : c ≠ CodePoint.ofChar '0' := by
      rintro rfl
      exact h0 (Option.some.inj hd).symm
    exact .whole ⟨d, hd⟩ hzero nofun

/-- A number in this part cannot go on with the code point. -/
def NumeralPart.EndsAt : NumeralPart → CodePoint → Prop
  | .zero, c => c ≠ CodePoint.ofChar '.' ∧ ¬ isExponentLetter c
  | .whole, c => ¬ IsDigit c ∧ c ≠ CodePoint.ofChar '.' ∧ ¬ isExponentLetter c
  | .letter _, c => ¬ IsDigit c ∧ c ≠ CodePoint.ofChar '-' ∧ c ≠ CodePoint.ofChar '+'
  | _, c => ¬ IsDigit c

/-- What is written of a number and cannot go on gives no more of it. -/
theorem Written.not_goesOn {part : NumeralPart} {digits tail rest : Text}
    (h : Written part digits tail) (long : 1 < digits.length)
    (hrest : ∀ c r, rest = c :: r → part.EndsAt c) : ¬ GoesOn (tail ++ rest) := by
  have hpoint : ¬ IsDigit (CodePoint.ofChar '.') := digit?_eq_none.mp rfl
  have hsign : ∀ s, s = CodePoint.ofChar '+' ∨ s = CodePoint.ofChar '-' → ¬ IsDigit s := by
    rintro s (rfl | rfl) <;> exact digit?_eq_none.mp rfl
  intro hgoes
  cases h with
  | sign => exact absurd long (by decide)
  | zero => exact absurd long (by decide)
  | whole hc hzero hdigits =>
    rw [List.nil_append] at hgoes
    cases hgoes with
    | digit h => exact (hrest _ _ rfl).1 h
    | fraction h => exact (hrest _ _ rfl).2.1 rfl
    | exponent he h => exact (hrest _ _ rfl).2.2 he
    | signedExponent he hs h => exact (hrest _ _ rfl).2.2 he
  | point h place =>
    rw [List.singleton_append] at hgoes
    cases hgoes with
    | digit h => exact hpoint h
    | fraction h => exact hrest _ _ rfl h
    | exponent he h => exact absurd he (by decide)
    | signedExponent he hs h => exact absurd he (by decide)
  | letter h he place =>
    rw [List.singleton_append] at hgoes
    cases hgoes with
    | digit h => exact not_isDigit_of_isExponentLetter he h
    | fraction h => exact absurd he (by decide)
    | exponent he h => exact (hrest _ _ rfl).1 h
    | signedExponent he hs h =>
      rcases hs with rfl | rfl
      · exact (hrest _ _ rfl).2.2 rfl
      · exact (hrest _ _ rfl).2.1 rfl
  | exponentSign h hs =>
    cases h with
    | letter h he place =>
      rw [List.cons_append, List.singleton_append] at hgoes
      cases hgoes with
      | digit h => exact not_isDigit_of_isExponentLetter he h
      | fraction h => exact absurd he (by decide)
      | exponent he h => exact hsign _ hs h
      | signedExponent he hs' h => exact hrest _ _ rfl h

/-! ## Steps inside a number -/

/-- Whether the numeral has neither a fraction nor an exponent. -/
def Numeral.IsWhole (m : Numeral) : Prop := m.fraction.count = 0 ∧ m.exponent.count = 0

theorem Numeral.not_isWhole_of_fraction {m : Numeral} {d : Digits} {n : Nat} :
    ¬ ({ m with fraction := d.push n } : Numeral).IsWhole :=
  fun h => Nat.succ_ne_zero _ h.1

theorem Numeral.not_isWhole_of_exponent {m : Numeral} {d : Digits} {n : Nat} :
    ¬ ({ m with exponent := d.push n } : Numeral).IsWhole :=
  fun h => Nat.succ_ne_zero _ h.2

theorem afterValue_ne_numeral {here start : Place} {stack : List Frame} {v : Value}
    {c : CodePoint} {s' : State} {m : Numeral} {part : NumeralPart}
    (h : afterValue here stack v c = .ok s') : s'.phase ≠ .numeral start m part := by
  unfold afterValue at h
  grind

theorem afterNumeral_ne_numeral {here start : Place} {stack : List Frame} {n : Numeral}
    {c : CodePoint} {s' : State} {m : Numeral} {part : NumeralPart}
    (h : afterNumeral limits here stack n c = .ok s') : s'.phase ≠ .numeral start m part := by
  unfold afterNumeral at h
  cases hv : n.value limits with
  | error f =>
    rw [hv] at h
    cases h
  | ok v =>
    rw [hv] at h
    exact afterValue_ne_numeral h

/-- What a step from inside a number to inside a number takes: one more digit,
or the point, letter or sign that a digit has to follow. -/
inductive Grows (here : Place) (m : Numeral) (c : CodePoint) :
    NumeralPart → Numeral → NumeralPart → Prop
  | first {d : Nat} (hd : c.digit? = some d) (whole : Digits)
    (hw : whole.count = m.whole.count + 1) :
    Grows here m c .sign { m with whole } (if d = 0 then .zero else .whole)
  | whole (hc : IsDigit c) (whole : Digits) (hw : whole.count = m.whole.count + 1) :
    Grows here m c .whole { m with whole } .whole
  | point {part : NumeralPart} (hpart : part = .zero ∨ part = .whole)
    (hc : c = CodePoint.ofChar '.') : Grows here m c part m (.point here)
  | letter {part : NumeralPart} (hpart : part = .zero ∨ part = .whole ∨ part = .fraction)
    (hc : isExponentLetter c) : Grows here m c part m (.letter here)
  | exponentSign {place : Place} (negative : Bool)
    (hc : c = CodePoint.ofChar '+' ∨ c = CodePoint.ofChar '-') :
    Grows here m c (.letter place) { m with exponentNegative := negative } (.exponentSign place)
  /-- The number is no whole number any more. -/
  | past {part part' : NumeralPart} {m' : Numeral} (h : ¬ m'.IsWhole) :
    Grows here m c part m' part'

theorem Grows.isWhole {here : Place} {m m' : Numeral} {c : CodePoint} {part part' : NumeralPart}
    (grows : Grows here m c part m' part') (h : m'.IsWhole) : m.IsWhole := by
  cases grows with
  | past h' => exact absurd h h'
  | _ => exact h

theorem numeralStep_digit (limits : Limits) (here : Place) (stack : List Frame) (start : Place)
    (m : Numeral) {part : NumeralPart} {c : CodePoint} {d : Nat} (hd : c.digit? = some d)
    (hpart : part ≠ .zero) :
    ∃ m' part', numeralStep limits here stack start m part c =
        .ok ⟨stack, .numeral start m' part'⟩ ∧ Grows here m c part m' part' := by
  cases part with
  | zero => exact absurd rfl hpart
  | sign =>
    refine ⟨_, _, ?_, .first hd (m.whole.push d) rfl⟩
    simp only [numeralStep, hd]
  | whole =>
    refine ⟨_, _, ?_, .whole ⟨d, hd⟩ (m.whole.push d) rfl⟩
    simp only [numeralStep, hd]
  | point | fraction =>
    refine ⟨{ m with fraction := m.fraction.push d }, .fraction, ?_,
      .past Numeral.not_isWhole_of_fraction⟩
    simp only [numeralStep, hd]
  | letter | exponentSign | exponent =>
    refine ⟨{ m with exponent := m.exponent.push d }, .exponent, ?_,
      .past Numeral.not_isWhole_of_exponent⟩
    simp only [numeralStep, hd]

theorem numeralStep_grows {here start start' : Place} {stack : List Frame} {m m' : Numeral}
    {part part' : NumeralPart} {c : CodePoint} {s' : State}
    (hs : numeralStep limits here stack start m part c = .ok s')
    (hphase : s'.phase = .numeral start' m' part') : Grows here m c part m' part' := by
  -- After a zero a digit is no part of the number, so that case goes with the rest.
  by_cases hdigit : IsDigit c ∧ part ≠ .zero
  · obtain ⟨⟨d, hd⟩, hpart⟩ := hdigit
    obtain ⟨n, p, hstep, grows⟩ := numeralStep_digit limits here stack start m hd hpart
    rw [hstep] at hs
    cases hs
    cases hphase
    exact grows
  · have hnone : part ≠ .zero → c.digit? = none := by
      intro hpart
      exact digit?_eq_none.mpr fun hd => hdigit ⟨hd, hpart⟩
    cases part with
    | zero =>
      simp only [numeralStep] at hs
      split at hs
      · cases hs
        cases hphase
        exact .point (.inl rfl) ‹_›
      split at hs
      · cases hs
        cases hphase
        exact .letter (.inl rfl) ‹_›
      · exact absurd hphase (afterNumeral_ne_numeral hs)
    | whole =>
      simp only [numeralStep, hnone nofun] at hs
      split at hs
      · cases hs
        cases hphase
        exact .point (.inr rfl) ‹_›
      split at hs
      · cases hs
        cases hphase
        exact .letter (.inr (.inl rfl)) ‹_›
      · exact absurd hphase (afterNumeral_ne_numeral hs)
    | fraction =>
      simp only [numeralStep, hnone nofun] at hs
      split at hs
      · cases hs
        cases hphase
        exact .letter (.inr (.inr rfl)) ‹_›
      · exact absurd hphase (afterNumeral_ne_numeral hs)
    | letter place =>
      simp only [numeralStep, hnone nofun] at hs
      split at hs
      · cases hs
        cases hphase
        exact .exponentSign true (.inr ‹_›)
      split at hs
      · cases hs
        cases hphase
        exact .exponentSign m.exponentNegative (.inl ‹_›)
      · cases hs
    | exponent =>
      simp only [numeralStep, hnone nofun] at hs
      exact absurd hphase (afterNumeral_ne_numeral hs)
    | sign =>
      simp only [numeralStep, hnone nofun] at hs
      split at hs
      · cases hs
        cases hphase
      · cases hs
    | point | exponentSign =>
      simp only [numeralStep, hnone nofun] at hs
      cases hs

/-- A step inside a number that is whole goes on writing it. -/
theorem Written.step {here : Place} {m m' : Numeral} {part part' : NumeralPart}
    {digits tail : Text} {c : CodePoint} (h : Written part digits tail)
    (hcount : m.whole.count = digits.length) (grows : Grows here m c part m' part')
    (whole : m'.IsWhole) :
    ∃ digits' tail', Written part' digits' tail' ∧ m'.whole.count = digits'.length ∧
      digits' ++ tail' = digits ++ (tail ++ [c]) := by
  cases grows with
  | first hd w hw =>
    cases h
    exact ⟨[c], [], written_digit hd, by simp [hw, hcount], rfl⟩
  | whole hc w hw =>
    cases h with
    | @whole c₀ ds hc₀ hzero hds =>
      have hdigits : ∀ x ∈ ds ++ [c], IsDigit x := by
        intro x hx
        rcases List.mem_append.mp hx with hx | hx
        · exact hds x hx
        · rwa [List.mem_singleton.mp hx]
      exact ⟨c₀ :: (ds ++ [c]), [], .whole hc₀ hzero hdigits, by simp [hw, hcount], by simp⟩
  | point hpart hc =>
    subst hc
    rcases hpart with rfl | rfl <;> cases h <;>
      exact ⟨_, _, .point (by constructor <;> assumption) here, hcount, rfl⟩
  | letter hpart hc =>
    rcases hpart with rfl | rfl | rfl <;> cases h <;>
      exact ⟨_, _, .letter (by constructor <;> assumption) hc here, hcount, rfl⟩
  | exponentSign negative hc =>
    cases h with
    | letter h he =>
      exact ⟨digits, _, .exponentSign (.letter h he _) hc, hcount, rfl⟩
  | past h' => exact absurd whole h'

theorem run_digits (limits : Limits) (here : Place) (stack : List Frame) (start : Place)
    (m : Numeral) {digits : Text} (h : ∀ c ∈ digits, IsDigit c) :
    ∃ value, State.run limits here ⟨stack, .numeral start m .whole⟩ digits =
      .ok ⟨stack, .numeral start
        { m with whole := ⟨value, m.whole.count + digits.length⟩ } .whole⟩ := by
  induction digits generalizing here m with
  | nil => exact ⟨m.whole.value, rfl⟩
  | cons c digits ih =>
    obtain ⟨⟨d, hd⟩, hdigits⟩ := List.forall_mem_cons.mp h
    obtain ⟨value, hv⟩ := ih (here.next c) { m with whole := m.whole.push d } hdigits
    have hcount : (m.whole.push d).count + digits.length = m.whole.count + (c :: digits).length := by
      simp only [Digits.push, List.length_cons]
      omega
    refine ⟨value, ?_⟩
    simp only [State.run, State.step, numeralStep, hd]
    rw [hv, hcount]

/-! ## Numbers with too many digits -/

theorem Numeral.value_eq_longNumber {m : Numeral} {n : Nat} :
    m.value limits = .error (.longNumber n) ↔
      m.fraction.count = 0 ∧ m.exponent.count = 0 ∧ limits.digits < m.whole.count ∧
        m.whole.count = n := by
  unfold value
  by_cases h : m.fraction.count = 0 ∧ m.exponent.count = 0
  · rw [if_pos h]
    by_cases hlong : limits.digits < m.whole.count
    · simp [h, hlong]
    · simp [h, hlong]
  · rw [if_neg h]
    simp only [reduceCtorEq, false_iff]
    exact fun hm => h ⟨hm.1, hm.2.1⟩

theorem leftover_ne_longNumber (stack : List Frame) (place : Place) (n : Nat) :
    leftover stack place ≠ .longNumber n := by
  cases stack <;> nofun

theorem numeralFault_eq_longNumber {stack : List Frame} {m : Numeral} {place : Place} {n : Nat} :
    numeralFault limits stack m place = .longNumber n ↔
      m.value limits = .error (.longNumber n) := by
  unfold numeralFault
  cases m.value limits with
  | error f => simp
  | ok v => simp [leftover_ne_longNumber]

theorem afterValue_ne_longNumber {here : Place} {stack : List Frame} {v : Value} {c : CodePoint}
    {n : Nat} : afterValue here stack v c ≠ .error (.longNumber n) := by
  intro h
  unfold afterValue at h
  grind [leftover_ne_longNumber]

theorem afterNumeral_eq_longNumber {here : Place} {stack : List Frame} {m : Numeral}
    {c : CodePoint} {n : Nat} :
    afterNumeral limits here stack m c = .error (.longNumber n) ↔
      m.value limits = .error (.longNumber n) := by
  unfold afterNumeral
  cases m.value limits with
  | error f => simp
  | ok v => simp [afterValue_ne_longNumber]

theorem numeralStep_eq_longNumber {here start : Place} {stack : List Frame} {m : Numeral}
    {part : NumeralPart} {c : CodePoint} {n : Nat}
    (h : numeralStep limits here stack start m part c = .error (.longNumber n)) :
    m.value limits = .error (.longNumber n) ∧ part.EndsAt c := by
  unfold numeralStep at h
  cases part <;>
    grind [NumeralPart.EndsAt, digit?_eq_none, numeralFault_eq_longNumber,
      afterNumeral_eq_longNumber]

/-- Behind a point or the letter of an exponent, a number of whole digits
ends at once if no digit follows. -/
theorem readFrom_of_no_digit (here : Place) (stack : List Frame) (start place : Place)
    {m : Numeral} {n : Nat} {part : NumeralPart} (h : m.value limits = .error (.longNumber n))
    (hpart : part = .point place ∨ part = .exponentSign place) {rest : Text}
    (hrest : ∀ c r, rest = c :: r → ¬ IsDigit c) :
    readFrom limits here ⟨stack, .numeral start m part⟩ rest = .error (.longNumber n) := by
  have hfault : numeralFault limits stack m place = .longNumber n :=
    numeralFault_eq_longNumber.mpr h
  cases rest with
  | nil => rcases hpart with rfl | rfl <;> simp [readFrom, State.finish, hfault]
  | cons c r =>
    have hc : c.digit? = none := digit?_eq_none.mpr (hrest c r rfl)
    rcases hpart with rfl | rfl <;> simp [readFrom, State.step, numeralStep, hc, hfault]

theorem readFrom_of_no_exponent (here : Place) (stack : List Frame) (start place : Place)
    {m : Numeral} {n : Nat} (h : m.value limits = .error (.longNumber n)) {e : CodePoint}
    (he : isExponentLetter e) {rest : Text} (hrest : ¬ GoesOn (e :: rest)) :
    readFrom limits here ⟨stack, .numeral start m (.letter place)⟩ rest =
      .error (.longNumber n) := by
  have hfault : numeralFault limits stack m place = .longNumber n :=
    numeralFault_eq_longNumber.mpr h
  have hsigned : ∀ negative,
      ({ m with exponentNegative := negative } : Numeral).value limits =
        .error (.longNumber n) := by
    intro negative
    rw [Numeral.value_eq_longNumber] at h ⊢
    exact h
  cases rest with
  | nil => simp [readFrom, State.finish, hfault]
  | cons c r =>
    have hc : c.digit? = none := digit?_eq_none.mpr fun hd => hrest (.exponent he hd)
    by_cases hminus : c = CodePoint.ofChar '-'
    · subst hminus
      have hr : ∀ d q, r = d :: q → ¬ IsDigit d := by
        rintro d q rfl hd
        exact hrest (.signedExponent he (.inr rfl) hd)
      have := readFrom_of_no_digit (here.next (CodePoint.ofChar '-')) stack start place
        (hsigned true) (.inr rfl) hr
      simpa [readFrom, State.step, numeralStep, hc] using this
    · by_cases hplus : c = CodePoint.ofChar '+'
      · subst hplus
        have hr : ∀ d q, r = d :: q → ¬ IsDigit d := by
          rintro d q rfl hd
          exact hrest (.signedExponent he (.inl rfl) hd)
        have := readFrom_of_no_digit (here.next (CodePoint.ofChar '+')) stack start place h
          (.inr rfl) hr
        simpa [readFrom, State.step, numeralStep, hc, hminus] using this
      · simp [readFrom, State.step, numeralStep, hc, hminus, hplus, hfault]

/-- A long number is where the reader breaks off, once nothing goes on it. -/
theorem readFrom_of_long {here : Place} {stack : List Frame} {start : Place} {m : Numeral}
    {n : Nat} (h : m.value limits = .error (.longNumber n)) {rest : Text}
    (hrest : ¬ GoesOn rest) :
    readFrom limits here ⟨stack, .numeral start m .whole⟩ rest = .error (.longNumber n) := by
  cases rest with
  | nil => simp [readFrom, State.finish, h]
  | cons c r =>
    have hc : c.digit? = none := digit?_eq_none.mpr fun hd => hrest (.digit hd)
    by_cases hpoint : c = CodePoint.ofChar '.'
    · subst hpoint
      have hr : ∀ d q, r = d :: q → ¬ IsDigit d := by
        rintro d q rfl hd
        exact hrest (.fraction hd)
      have := readFrom_of_no_digit (here.next (CodePoint.ofChar '.')) stack start here h
        (.inl rfl) hr
      simpa [readFrom, State.step, numeralStep, hc] using this
    · by_cases he : isExponentLetter c
      · have := readFrom_of_no_exponent (here.next c) stack start here h he hrest
        simpa [readFrom, State.step, numeralStep, hc, hpoint, he] using this
      · simp [readFrom, State.step, numeralStep, hc, hpoint, he, afterNumeral_eq_longNumber.mpr h]

end Lectern.Json
