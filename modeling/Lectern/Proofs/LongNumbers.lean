-- Whole numbers with too many digits. The reader breaks off at such a number
-- when everything in front of it is good, and at nothing else does it break
-- off in this way.
import Lectern.Proofs.Numerals

namespace Lectern.Json

variable {limits : Limits}

/-! ## Long numbers in a text -/

/-- The reader stands where a value may begin. -/
def State.AwaitsValue (s : State) : Prop := s.phase = .value ∨ s.phase = .firstItem

/-- A whole number of this many digits, more than there may be, stands in the
text at a place that the reader comes to and where it awaits a value. -/
inductive HoldsLongNumber (limits : Limits) (n : Nat) : Text → Prop
  | mk {before sign digits rest : Text} {s : State}
    (hbefore : State.start.run limits .start before = .ok s) (awaits : s.AwaitsValue)
    (hsign : sign = [] ∨ sign = [CodePoint.ofChar '-']) (hdigits : ∀ c ∈ digits, IsDigit c)
    (hhead : digits.head? ≠ some (CodePoint.ofChar '0')) (hlength : digits.length = n)
    (long : limits.digits < n) (hrest : ¬ GoesOn rest) :
    HoldsLongNumber limits n (before ++ (sign ++ (digits ++ rest)))

/-! ## Where a long number is met -/

theorem startValue_digit {here : Place} {stack : List Frame} {c : CodePoint} {d : Nat}
    (h : c.digit? = some d) :
    startValue limits here stack c =
      .ok ⟨stack, .numeral here { Numeral.ofSign false with whole := Digits.none.push d }
        (if d = 0 then .zero else .whole)⟩ := by
  have hne : ∀ x : CodePoint, x.digit? = none → c ≠ x := fun x hx => IsDigit.ne ⟨d, h⟩ hx
  rw [startValue, if_neg (hne _ rfl), if_neg (hne _ rfl), if_neg (hne _ rfl), if_neg (hne _ rfl)]
  simp only [h]
  rfl

theorem State.AwaitsValue.step (limits : Limits) (here : Place) {s : State} (h : s.AwaitsValue)
    {c : CodePoint} (hspace : isSpace c = false) (hclose : c ≠ CodePoint.ofChar ']') :
    ∃ stack, s.step limits here c = startValue limits here stack c := by
  rcases h with h | h
  · exact ⟨s.stack, by simp [State.step, h, hspace]⟩
  · exact ⟨.array [] :: s.stack, by simp [State.step, h, hspace, hclose]⟩

/-- A whole number without a zero in front is read to its end, from any place
where a value is awaited. -/
theorem State.AwaitsValue.run_number (limits : Limits) (here : Place) {s : State}
    (h : s.AwaitsValue) {sign : Text} (hsign : sign = [] ∨ sign = [CodePoint.ofChar '-'])
    {c : CodePoint} {digits : Text} (hc : IsDigit c) (hzero : c ≠ CodePoint.ofChar '0')
    (hdigits : ∀ c ∈ digits, IsDigit c) :
    ∃ stack start m, s.run limits here (sign ++ c :: digits) =
        .ok ⟨stack, .numeral start m .whole⟩ ∧
      m.whole.count = (c :: digits).length ∧ m.fraction.count = 0 ∧ m.exponent.count = 0 := by
  obtain ⟨d, hd⟩ := hc
  have hd0 : d ≠ 0 := by
    rintro rfl
    exact hzero (eq_zero_of_digit? hd)
  have hcount : (Digits.none.push d).count + digits.length = (c :: digits).length := by
    simp only [Digits.push, Digits.none, List.length_cons]
    omega
  rcases hsign with rfl | rfl
  · obtain ⟨stack, hstep⟩ := h.step limits here
      (isSpace_of_isDigit ⟨d, hd⟩) (IsDigit.ne ⟨d, hd⟩ rfl)
    rw [startValue_digit hd, if_neg hd0] at hstep
    obtain ⟨value, hv⟩ := run_digits limits (here.next c) stack here
      { Numeral.ofSign false with whole := Digits.none.push d } hdigits
    refine ⟨stack, here, { Numeral.ofSign false with
      whole := ⟨value, (Digits.none.push d).count + digits.length⟩ }, ?_, hcount, rfl, rfl⟩
    simp only [List.nil_append, run, hstep]
    exact hv
  · obtain ⟨stack, hstep⟩ := h.step limits here (c := CodePoint.ofChar '-') rfl (by decide)
    have hminus : startValue limits here stack (CodePoint.ofChar '-') =
        .ok ⟨stack, .numeral here (.ofSign true) .sign⟩ := rfl
    obtain ⟨value, hv⟩ := run_digits limits ((here.next (CodePoint.ofChar '-')).next c) stack here
      { Numeral.ofSign true with whole := Digits.none.push d } hdigits
    refine ⟨stack, here, { Numeral.ofSign true with
      whole := ⟨value, (Digits.none.push d).count + digits.length⟩ }, ?_, hcount, rfl, rfl⟩
    have hnext : State.step limits (here.next (CodePoint.ofChar '-'))
        ⟨stack, .numeral here (.ofSign true) .sign⟩ c =
          .ok ⟨stack, .numeral here { Numeral.ofSign true with whole := Digits.none.push d }
            .whole⟩ := by
      simp only [State.step, numeralStep, hd, if_neg hd0]
      rfl
    simp only [List.cons_append, List.nil_append, run, hstep, hminus, hnext]
    exact hv

theorem readFrom_of_holdsLongNumber {t : Text} {n : Nat} (h : HoldsLongNumber limits n t) :
    readFrom limits .start .start t = .error (.longNumber n) := by
  cases h with
  | @mk before sign digits rest s hbefore awaits hsign hdigits hhead hlength long hrest =>
    cases digits with
    | nil =>
      rw [← hlength] at long
      exact absurd long (Nat.not_lt_zero _)
    | cons c digits =>
      obtain ⟨hc, hdigits⟩ := List.forall_mem_cons.mp hdigits
      have hzero : c ≠ CodePoint.ofChar '0' := fun h0 => hhead (by rw [h0, List.head?_cons])
      obtain ⟨stack, start, m, hrun, hwhole, hfraction, hexponent⟩ :=
        awaits.run_number limits (before.foldl Place.next .start) hsign hc hzero hdigits
      have hvalue : m.value limits = .error (.longNumber n) :=
        Numeral.value_eq_longNumber.mpr ⟨hfraction, hexponent, by omega, by omega⟩
      rw [readFrom_append, hbefore]
      simp only
      rw [← List.append_assoc, readFrom_append, hrun]
      exact readFrom_of_long hvalue hrest

/-! ## What leads into a number -/

theorem startValue_numeral {here start : Place} {stack : List Frame} {c : CodePoint} {s' : State}
    {m : Numeral} {part : NumeralPart} (h : startValue limits here stack c = .ok s')
    (hphase : s'.phase = .numeral start m part) :
    ∃ sign digits, [c] = sign ++ digits ∧ (sign = [] ∨ sign = [CodePoint.ofChar '-']) ∧
      Written part digits [] ∧ m.whole.count = digits.length := by
  cases hd : c.digit? with
  | some d =>
    rw [startValue_digit hd] at h
    cases h
    cases hphase
    exact ⟨[], [c], rfl, .inl rfl, written_digit hd, rfl⟩
  | none =>
    by_cases hminus : c = CodePoint.ofChar '-'
    · subst hminus
      cases h
      cases hphase
      exact ⟨_, [], rfl, .inr rfl, .sign, rfl⟩
    · unfold startValue at h
      grind

theorem stringStep_ne_numeral {here start start' : Place} {stack : List Frame} {role : Role}
    {read : Text} {kind : StringPart} {c : CodePoint} {s' : State} {m : Numeral}
    {part : NumeralPart} (h : stringStep here stack start role read kind c = .ok s') :
    s'.phase ≠ .numeral start' m part := by
  unfold stringStep plainStep Role.ended at h
  grind

theorem literalStep_ne_numeral {start start' : Place} {stack : List Frame} {left : Text}
    {v : Value} {c : CodePoint} {s' : State} {m : Numeral} {part : NumeralPart}
    (h : literalStep stack start left v c = .ok s') : s'.phase ≠ .numeral start' m part := by
  unfold literalStep at h
  grind

/-- A step that leads into a number comes from inside it or begins it. -/
theorem State.step_to_numeral {here start' : Place} {s s' : State} {c : CodePoint} {m' : Numeral}
    {part' : NumeralPart} (h : s.step limits here c = .ok s')
    (hphase : s'.phase = .numeral start' m' part') :
    (∃ start m part, s.phase = .numeral start m part ∧ Grows here m c part m' part') ∨
      s.AwaitsValue ∧ ∃ stack, startValue limits here stack c = .ok s' := by
  obtain ⟨stack, phase⟩ := s
  cases phase with
  | value =>
    simp only [State.step] at h
    split at h
    · cases h
      cases hphase
    · exact .inr ⟨.inl rfl, _, h⟩
  | firstItem =>
    simp only [State.step] at h
    split at h
    · cases h
      cases hphase
    split at h
    · cases h
      cases hphase
    · exact .inr ⟨.inr rfl, _, h⟩
  | firstName | name | colon =>
    simp only [State.step] at h
    grind
  | ended v => exact absurd hphase (afterValue_ne_numeral h)
  | literal start left v => exact absurd hphase (literalStep_ne_numeral h)
  | numeral start m part => exact .inl ⟨start, m, part, rfl, numeralStep_grows h hphase⟩
  | string start role read kind => exact absurd hphase (stringStep_ne_numeral h)

/-- A number stands at the end of the text, at a place where a value is
awaited, as far as it is read. -/
def EndsInNumber (limits : Limits) (p : Text) (m : Numeral) (part : NumeralPart) : Prop :=
  ∃ before sign digits tail s, p = before ++ (sign ++ (digits ++ tail)) ∧
    State.start.run limits .start before = .ok s ∧ s.AwaitsValue ∧
    (sign = [] ∨ sign = [CodePoint.ofChar '-']) ∧ Written part digits tail ∧
    m.whole.count = digits.length

/-- After a good part of a text, the number that the reader is in is the one at
the end of that part. -/
theorem endsInNumber_of_run {p : Text} {s : State}
    (h : State.start.run limits .start p = .ok s) :
    ∀ start m part, s.phase = .numeral start m part → m.IsWhole → EndsInNumber limits p m part := by
  -- The induction is on the good part, one code point at a time at its end. A
  -- number that is no longer whole was no longer whole before, or becomes so now.
  refine State.run_induction
    (P := fun p s => ∀ start m part, s.phase = .numeral start m part → m.IsWhole →
      EndsInNumber limits p m part) (by simp [State.start]) ?_ h
  intro p s c s' hp ih hs start' m' part' hphase whole
  rcases State.step_to_numeral hs hphase with ⟨start, m, part, hm, grows⟩ | ⟨awaits, stack, hv⟩
  · obtain ⟨before, sign, digits, tail, s₀, rfl, hbefore, awaits, hsign, written, hcount⟩ :=
      ih start m part hm (grows.isWhole whole)
    obtain ⟨digits', tail', written', hcount', happend⟩ := written.step hcount grows whole
    refine ⟨before, sign, digits', tail', s₀, ?_, hbefore, awaits, hsign, written', hcount'⟩
    rw [happend]
    simp only [List.append_assoc]
  · obtain ⟨sign, digits, hc, hsign, written, hcount⟩ := startValue_numeral hv hphase
    refine ⟨p, sign, digits, [], s, ?_, hp, awaits, hsign, written, hcount⟩
    rw [hc, List.append_nil]

/-! ## What breaks off at a long number -/

theorem State.step_eq_longNumber {here : Place} {s : State} {c : CodePoint} {n : Nat}
    (h : s.step limits here c = .error (.longNumber n)) :
    ∃ start m part, s.phase = .numeral start m part ∧
      m.value limits = .error (.longNumber n) ∧ part.EndsAt c := by
  have hstart : ∀ stack, startValue limits here stack c ≠ .error (.longNumber n) := by
    intro stack h
    unfold startValue at h
    grind
  obtain ⟨stack, phase⟩ := s
  cases phase with
  | numeral start m part => exact ⟨start, m, part, rfl, numeralStep_eq_longNumber h⟩
  | ended v => exact absurd h afterValue_ne_longNumber
  | literal start left v =>
    simp only [State.step, literalStep] at h
    grind
  | string start role read kind =>
    simp only [State.step, stringStep, plainStep] at h
    grind
  | _ =>
    simp only [State.step] at h
    grind

theorem State.finish_eq_longNumber {here : Place} {s : State} {n : Nat}
    (h : s.finish limits here = .error (.longNumber n)) :
    ∃ start m part, s.phase = .numeral start m part ∧
      m.value limits = .error (.longNumber n) := by
  unfold State.finish endWith at h
  grind [leftover_ne_longNumber, numeralFault_eq_longNumber]

theorem holdsLongNumber_of_readFrom (hlimits : 0 < limits.digits) {t : Text} {n : Nat}
    (h : readFrom limits .start .start t = .error (.longNumber n)) :
    HoldsLongNumber limits n t := by
  obtain ⟨p, s, hp, hend⟩ := readFrom_eq_error h
  obtain ⟨start, m, part, rest, hphase, hvalue, rfl, hrest⟩ :
      ∃ start m part rest, s.phase = .numeral start m part ∧
        m.value limits = .error (.longNumber n) ∧ t = p ++ rest ∧
          ∀ c r, rest = c :: r → part.EndsAt c := by
    rcases hend with ⟨rfl, hf⟩ | ⟨c, rest, rfl, hf⟩
    · obtain ⟨start, m, part, hphase, hvalue⟩ := State.finish_eq_longNumber hf
      exact ⟨start, m, part, [], hphase, hvalue, (List.append_nil t).symm, nofun⟩
    · obtain ⟨start, m, part, hphase, hvalue, hc⟩ := State.step_eq_longNumber hf
      refine ⟨start, m, part, c :: rest, hphase, hvalue, rfl, ?_⟩
      rintro _ _ ⟨⟩
      exact hc
  obtain ⟨hfraction, hexponent, long, hcount⟩ := Numeral.value_eq_longNumber.mp hvalue
  obtain ⟨before, sign, digits, tail, s₀, rfl, hbefore, awaits, hsign, written, hdigits⟩ :=
    endsInNumber_of_run hp start m part hphase ⟨hfraction, hexponent⟩
  -- A zero is written alone, so more than one digit do not begin with it.
  have hlength : 1 < digits.length := by omega
  have htext : before ++ (sign ++ (digits ++ tail)) ++ rest =
      before ++ (sign ++ (digits ++ (tail ++ rest))) := by
    simp only [List.append_assoc]
  rw [htext]
  exact ⟨hbefore, awaits, hsign, written.digits.1, written.digits.2 hlength, by omega, by omega,
    written.not_goesOn hlength hrest⟩

theorem readFrom_byteOrderMark (rest : Text) :
    readFrom limits .start .start (byteOrderMark :: rest) =
      .error (.malformed .noValue .start) := rfl

/-- A value is read from a text as from the state before the first code point. -/
theorem read_eq_ok {t : Text} {v : Value} :
    read limits t = .ok v ↔ readFrom limits .start .start t = .ok v := by
  unfold read
  split
  · rename_i hmark
    obtain ⟨rest, rfl⟩ := List.head?_eq_some_iff.mp hmark
    rw [readFrom_byteOrderMark]
    simp
  · rfl

/-- The reader breaks off at a long number exactly where one is met. -/
theorem read_eq_longNumber (hlimits : 0 < limits.digits) {t : Text} {n : Nat} :
    read limits t = .error (.longNumber n) ↔ HoldsLongNumber limits n t := by
  unfold read
  constructor
  · intro h
    by_cases hmark : t.head? = some byteOrderMark
    · rw [if_pos hmark] at h
      cases h
    · rw [if_neg hmark] at h
      exact holdsLongNumber_of_readFrom hlimits h
  · intro h
    have hread := readFrom_of_holdsLongNumber h
    have hmark : t.head? ≠ some byteOrderMark := by
      intro hmark
      obtain ⟨rest, rfl⟩ := List.head?_eq_some_iff.mp hmark
      rw [readFrom_byteOrderMark] at hread
      cases hread
    rw [if_neg hmark]
    exact hread

end Lectern.Json
