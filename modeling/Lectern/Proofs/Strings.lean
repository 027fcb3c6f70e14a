-- Strings as the reader takes them. Behind a unit escape it stands as behind
-- any other code point, except where the next escape is the second half of a
-- pair that was begun.
import Lectern.Proofs.Yields

namespace Lectern.Json

open CodePoint (backslash quotationMark)

variable {limits : Limits} {stack : List Frame} {role : Role} {read : Text} {x : Value}

/-- The reader is inside a string, of which this much is read. -/
abbrev inString (stack : List Frame) (role : Role) (read : Text) (part : StringPart) : State :=
  ⟨stack, .string .start role read part⟩

/-! ## Escapes -/

theorem escaped?_eq_some {c d : CodePoint} : escaped? c = some d ↔ (c, d) ∈ escapeLetters := by
  constructor
  · unfold escaped? escapeLetters
    grind
  · have hletters : ∀ p ∈ escapeLetters, escaped? p.1 = some p.2 := by decide
    exact hletters (c, d)

theorem UnitEscape.length {t : Text} {unit : CodePoint} (h : UnitEscape t unit) : t.length = 6 := by
  cases h
  rfl

theorem UnitEscape.unit_unique {t : Text} {unit unit' : CodePoint} (h : UnitEscape t unit)
    (h' : UnitEscape t unit') : unit = unit' := by
  cases h with
  | mk ha hb hc hd =>
    cases h' with
    | mk ha' hb' hc' hd' =>
      rw [ha] at ha'
      rw [hb] at hb'
      rw [hc] at hc'
      rw [hd] at hd'
      cases ha'
      cases hb'
      cases hc'
      cases hd'
      rfl

/-- A text begins with one escape at most. -/
theorem UnitEscape.unique {t t' rest rest' : Text} {unit unit' : CodePoint} (h : UnitEscape t unit)
    (h' : UnitEscape t' unit') (happend : t ++ rest = t' ++ rest') :
    unit = unit' ∧ rest = rest' := by
  obtain ⟨rfl, rfl⟩ := List.append_inj happend (h.length.trans h'.length.symm)
  exact ⟨h.unit_unique h', rfl⟩

theorem UnitEscape.quotationMark_notMem {t : Text} {unit : CodePoint} (h : UnitEscape t unit) :
    quotationMark ∉ t := by
  have hne : ∀ {c : CodePoint} {n : Nat}, c.hexDigit? = some n → quotationMark ≠ c := by
    rintro c n hc rfl
    cases hc
  cases h with
  | mk ha hb hc hd =>
    have hslash : quotationMark ≠ backslash := by decide
    have hu : quotationMark ≠ CodePoint.ofChar 'u' := by decide
    simp [hslash, hu, hne ha, hne hb, hne hc, hne hd]

/-- Whether a text begins with the second half of a pair is settled before the
quotation mark. -/
theorem BeginsLow.of_append {t rest : Text} (h : BeginsLow (t ++ quotationMark :: rest)) :
    BeginsLow t := by
  obtain ⟨escape, low, rest', ht, hescape, isLow⟩ := h
  rcases List.append_eq_append_iff.mp ht with ⟨between, rfl, hbetween⟩ | ⟨behind, rfl, _⟩
  · cases between with
    | nil => exact ⟨t ++ [], low, [], by simp, hescape, isLow⟩
    | cons c between =>
      obtain ⟨rfl, _⟩ := List.cons.inj hbetween
      exact absurd (by simp) hescape.quotationMark_notMem
  · exact ⟨escape, low, behind, rfl, hescape, isLow⟩

theorem BeginsLow.append {t : Text} (h : BeginsLow t) (rest : Text) : BeginsLow (t ++ rest) := by
  obtain ⟨escape, low, behind, rfl, hescape, isLow⟩ := h
  exact ⟨escape, low, behind ++ rest, List.append_assoc .., hescape, isLow⟩

/-! ## Unit escapes -/

theorem yields_hexDigit {joins : Bool} {d : Digits} (next : Nat → State)
    (hnext : ∀ c n, c.hexDigit? = some n →
      State.step limits .start (inString stack role read (.digits .start joins d)) c =
        .ok (next n)) {t : Text} :
    State.Yields limits (inString stack role read (.digits .start joins d)) t x ↔
      ∃ c n rest, t = c :: rest ∧ c.hexDigit? = some n ∧ (next n).Yields limits rest x := by
  cases t with
  | nil =>
    constructor
    · nofun
    · rintro ⟨c, n, rest, ⟨⟩, _⟩
  | cons c t =>
    cases hc : c.hexDigit? with
    | none =>
      have hstep : State.step limits .start (inString stack role read (.digits .start joins d)) c =
          .error (.malformed .badUnit .start) := by
        simp [State.step, stringStep, hc]
      constructor
      · exact fun h => absurd h (not_yields_of_step hstep)
      · rintro ⟨c', n, rest, ⟨⟩, hn, _⟩
        rw [hc] at hn
        cases hn
    | some n =>
      rw [yields_of_step (hnext c n hc)]
      constructor
      · exact fun h => ⟨c, n, t, rfl, hc, h⟩
      · rintro ⟨c', n', rest, ⟨⟩, hn, h⟩
        rw [hc] at hn
        cases hn
        exact h

/-- A unit escape is read with its four digits. -/
theorem yields_digits {joins : Bool} {t : Text} :
    State.Yields limits (inString stack role read (.digits .start joins .none)) t x ↔
      ∃ escape unit rest, UnitEscape escape unit ∧
        backslash :: CodePoint.ofChar 'u' :: t = escape ++ rest ∧
        State.Yields limits (inString stack role (pushUnit read joins unit) (.unit .start))
          rest x := by
  have hmore : ∀ value count t, count < 3 →
      (State.Yields limits (inString stack role read (.digits .start joins ⟨value, count⟩)) t x ↔
        ∃ c n rest, t = c :: rest ∧ c.hexDigit? = some n ∧
          State.Yields limits
            (inString stack role read (.digits .start joins ⟨value * 16 + n, count + 1⟩))
            rest x) := by
    intro value count t hcount
    refine yields_hexDigit (fun n =>
      inString stack role read (.digits .start joins ⟨value * 16 + n, count + 1⟩)) ?_
    intro c n hc
    have hlt : count + 1 < 4 := by omega
    simp [State.step, stringStep, hc, hlt]
  have hlast : ∀ value t,
      (State.Yields limits (inString stack role read (.digits .start joins ⟨value, 3⟩)) t x ↔
        ∃ c n rest, t = c :: rest ∧ c.hexDigit? = some n ∧
          State.Yields limits
            (inString stack role (pushUnit read joins (CodePoint.ofNat (value * 16 + n)))
              (.unit .start)) rest x) := by
    intro value t
    refine yields_hexDigit (fun n =>
      inString stack role (pushUnit read joins (CodePoint.ofNat (value * 16 + n)))
        (.unit .start)) ?_
    intro c n hc
    simp [State.step, stringStep, hc]
  rw [Digits.none, hmore 0 0 t (by decide)]
  constructor
  · rintro ⟨a, i, _, rfl, ha, h⟩
    obtain ⟨b, j, _, rfl, hb, h⟩ := (hmore _ _ _ (by decide)).mp h
    obtain ⟨c, k, _, rfl, hc, h⟩ := (hmore _ _ _ (by decide)).mp h
    obtain ⟨d, l, rest, rfl, hd, h⟩ := (hlast _ _).mp h
    refine ⟨_, _, rest, .mk ha hb hc hd, rfl, ?_⟩
    rwa [Nat.zero_mul, Nat.zero_add] at h
  · rintro ⟨_, _, rest, ⟨ha, hb, hc, hd⟩, ht, h⟩
    cases ht
    refine ⟨_, _, _, rfl, ha, (hmore _ _ _ (by decide)).mpr ⟨_, _, _, rfl, hb,
      (hmore _ _ _ (by decide)).mpr ⟨_, _, _, rfl, hc, (hlast _ _).mpr ⟨_, _, rest, rfl, hd, ?_⟩⟩⟩⟩
    rwa [Nat.zero_mul, Nat.zero_add]

/-- A unit escape is read to its end. -/
theorem yields_unitEscape {part : StringPart} {joins : Bool}
    (hpart : State.step limits .start (inString stack role read part) backslash =
      .ok (inString stack role read (.escape .start joins)))
    {escape : Text} {unit : CodePoint} (h : UnitEscape escape unit) {rest : Text} :
    State.Yields limits (inString stack role read part) (escape ++ rest) x ↔
      State.Yields limits (inString stack role (pushUnit read joins unit) (.unit .start))
        rest x := by
  obtain ⟨digits, rfl⟩ : ∃ digits, escape = backslash :: CodePoint.ofChar 'u' :: digits := by
    cases h
    exact ⟨_, rfl⟩
  have hu : State.step limits .start (inString stack role read (.escape .start joins))
      (CodePoint.ofChar 'u') = .ok (inString stack role read (.digits .start joins .none)) := rfl
  rw [List.cons_append, List.cons_append, yields_of_step hpart, yields_of_step hu, yields_digits]
  constructor
  · rintro ⟨escape, unit', rest', h', happend, hrest⟩
    obtain ⟨rfl, rfl⟩ := h.unique h' happend
    exact hrest
  · exact fun hrest => ⟨_, unit, rest, h, rfl, hrest⟩

theorem pushUnit_joins_false (read : Text) (unit : CodePoint) :
    pushUnit read false unit = unit :: read := by
  cases read <;> simp [pushUnit]

theorem pushUnit_of_not_low (read : Text) (joins : Bool) {unit : CodePoint}
    (h : unit.isLowSurrogate = false) : pushUnit read joins unit = unit :: read := by
  cases read <;> simp [pushUnit, h]

/-- Whether an escape may join the code point before it plays no part, unless
it is the second half of a pair. -/
theorem yields_escape {joins : Bool} {t : Text} (h : ¬ BeginsLow (backslash :: t)) :
    State.Yields limits (inString stack role read (.escape .start joins)) t x ↔
      State.Yields limits (inString stack role read (.escape .start false)) t x := by
  cases t with
  | nil => exact ⟨nofun, nofun⟩
  | cons c t =>
    by_cases hu : c = CodePoint.ofChar 'u'
    · subst hu
      have hstep : ∀ joins, State.step limits .start
          (inString stack role read (.escape .start joins)) (CodePoint.ofChar 'u') =
            .ok (inString stack role read (.digits .start joins .none)) := fun _ => rfl
      rw [yields_of_step (hstep joins), yields_of_step (hstep false), yields_digits, yields_digits]
      have hlow : ∀ {escape unit rest}, UnitEscape escape unit →
          backslash :: CodePoint.ofChar 'u' :: t = escape ++ rest →
            unit.isLowSurrogate = false := by
        intro escape unit rest hunit ht
        by_contra hlow
        exact h ⟨escape, unit, rest, ht, hunit, by simpa using hlow⟩
      constructor
      all_goals
        rintro ⟨escape, unit, rest, hunit, ht, hrest⟩
        rw [pushUnit_of_not_low read _ (hlow hunit ht)] at hrest
        refine ⟨escape, unit, rest, hunit, ht, ?_⟩
        rwa [pushUnit_of_not_low read _ (hlow hunit ht)]
    · refine yields_congr ?_
      simp only [State.step, stringStep, if_neg hu]

/-- Behind a unit escape the reader goes on as behind any other code point,
unless a pair is made there. -/
theorem yields_unit {unit : CodePoint} {t : Text}
    (h : ¬ (unit.isHighSurrogate ∧ BeginsLow t)) :
    State.Yields limits (inString stack role (unit :: read) (.unit .start)) t x ↔
      State.Yields limits (inString stack role (unit :: read) .plain) t x := by
  cases t with
  | nil => exact ⟨nofun, nofun⟩
  | cons c t =>
    by_cases hhigh : unit.isHighSurrogate
    · by_cases hslash : c = backslash
      · subst hslash
        have hunit : State.step limits .start (inString stack role (unit :: read) (.unit .start))
            backslash = .ok (inString stack role (unit :: read)
              (.escape .start unit.isHighSurrogate)) := rfl
        have hplain : State.step limits .start (inString stack role (unit :: read) .plain)
            backslash = .ok (inString stack role (unit :: read) (.escape .start false)) := rfl
        rw [yields_of_step hunit, yields_of_step hplain]
        exact yields_escape fun hlow => h ⟨hhigh, hlow⟩
      · refine yields_congr ?_
        simp only [State.step, stringStep, plainStep, if_neg hslash]
    · refine yields_congr ?_
      simp [State.step, stringStep, hhigh]

theorem isHighSurrogate_ofSurrogates (high low : CodePoint) (isHigh : high.isHighSurrogate)
    (isLow : low.isLowSurrogate) : (CodePoint.ofSurrogates high low).isHighSurrogate = false := by
  simp only [CodePoint.isHighSurrogate, CodePoint.isLowSurrogate, Bool.and_eq_true,
    decide_eq_true_eq] at isHigh isLow
  have hlt : 0x10000 + (high.val - 0xD800) * 0x400 + (low.val - 0xDC00) < 0x110000 := by omega
  simp only [CodePoint.ofSurrogates, CodePoint.ofNat, dif_pos hlt, CodePoint.isHighSurrogate,
    Bool.and_eq_false_iff, decide_eq_false_iff_not]
  omega

/-- The second half of a pair joins the first one. -/
theorem yields_pair {high low : CodePoint} {escape rest : Text} (h : UnitEscape escape low)
    (isHigh : high.isHighSurrogate) (isLow : low.isLowSurrogate) :
    State.Yields limits (inString stack role (high :: read) (.unit .start)) (escape ++ rest) x ↔
      State.Yields limits (inString stack role (CodePoint.ofSurrogates high low :: read) .plain)
        rest x := by
  have hpart : State.step limits .start (inString stack role (high :: read) (.unit .start))
      backslash = .ok (inString stack role (high :: read) (.escape .start high.isHighSurrogate)) :=
    rfl
  have hpush : pushUnit (high :: read) high.isHighSurrogate low =
      CodePoint.ofSurrogates high low :: read := by
    simp [pushUnit, isHigh, isLow]
  rw [yields_unitEscape hpart h, hpush]
  refine yields_unit fun hhigh => ?_
  rw [isHighSurrogate_ofSurrogates high low isHigh isLow] at hhigh
  exact absurd hhigh.1 (by decide)

/-! ## Strings -/

/-- A body with its quotation mark is read to the end of the string. -/
theorem yields_of_stringBody {w u : Text} (h : StringBody w u) {rest : Text}
    (hrest : State.Yields limits ⟨stack, role.ended (read.reverse ++ u)⟩ rest x) :
    State.Yields limits (inString stack role read .plain) (w ++ quotationMark :: rest) x := by
  have hunit : ∀ read, State.step limits .start (inString stack role read .plain) backslash =
      .ok (inString stack role read (.escape .start false)) := fun _ => rfl
  induction h generalizing read with
  | nil =>
    rw [List.append_nil] at hrest
    exact (yields_of_step rfl).mpr hrest
  | @plain c t u hquote hslash hcontrol h ih =>
    have hstep : State.step limits .start (inString stack role read .plain) c =
        .ok (inString stack role (c :: read) .plain) := by
      simp [State.step, stringStep, plainStep, hquote, hslash, Nat.not_lt.mpr hcontrol]
    rw [List.cons_append, yields_of_step hstep]
    exact ih (by simpa using hrest)
  | @letter c d t u hc h ih =>
    have hstep : State.step limits .start (inString stack role read (.escape .start false)) c =
        .ok (inString stack role (d :: read) .plain) := by
      simp [State.step, stringStep, escaped?_eq_some.mpr hc]
    rw [List.cons_append, List.cons_append, yields_of_step (hunit read), yields_of_step hstep]
    exact ih (by simpa using hrest)
  | @unit escape t u unit hescape alone h ih =>
    rw [List.append_assoc, yields_unitEscape (hunit read) hescape, pushUnit_joins_false,
      yields_unit fun hboth => alone ⟨hboth.1, hboth.2.of_append⟩]
    exact ih (by simpa using hrest)
  | @pair escape escape' t u high low hhigh hlow isHigh isLow h ih =>
    rw [List.append_assoc, List.append_assoc, yields_unitEscape (hunit read) hhigh,
      pushUnit_joins_false, yields_pair hlow isHigh isLow]
    exact ih (by simpa using hrest)

/-- From inside a string, the text goes on with a body and the quotation mark,
and then the value is read. -/
def EndsString (limits : Limits) (stack : List Frame) (role : Role) (x : Value) (read t : Text) :
    Prop :=
  ∃ w u rest, t = w ++ quotationMark :: rest ∧ StringBody w u ∧
    State.Yields limits ⟨stack, role.ended (read.reverse ++ u)⟩ rest x

/-- Behind the first escape of a unit, where a string with less text is read
right. -/
theorem endsString_of_unit {escape t : Text} {unit : CodePoint} (hunit : UnitEscape escape unit)
    (shorter : ∀ read t', t'.length ≤ t.length →
      State.Yields limits (inString stack role read .plain) t' x →
        EndsString limits stack role x read t')
    (h : State.Yields limits (inString stack role (unit :: read) (.unit .start)) t x) :
    EndsString limits stack role x read (escape ++ t) := by
  by_cases hpair : unit.isHighSurrogate ∧ BeginsLow t
  · obtain ⟨isHigh, escape', low, t, rfl, hlow, isLow⟩ := hpair
    have hlength : t.length ≤ (escape' ++ t).length := by simp
    obtain ⟨w, u, rest, rfl, hbody, hrest⟩ :=
      shorter _ t hlength ((yields_pair hlow isHigh isLow).mp h)
    exact ⟨_, _, rest, by simp, .pair hunit hlow isHigh isLow hbody, by simpa using hrest⟩
  · obtain ⟨w, u, rest, rfl, hbody, hrest⟩ := shorter _ t le_rfl ((yields_unit hpair).mp h)
    have alone : ¬ (unit.isHighSurrogate ∧ BeginsLow w) :=
      fun hboth => hpair ⟨hboth.1, hboth.2.append _⟩
    exact ⟨_, _, rest, by simp, .unit hunit alone hbody, by simpa using hrest⟩

/-- Behind a backslash, where a string with less text is read right. -/
theorem endsString_of_escape {t : Text}
    (shorter : ∀ read t', t'.length < t.length →
      State.Yields limits (inString stack role read .plain) t' x →
        EndsString limits stack role x read t')
    (h : State.Yields limits (inString stack role read (.escape .start false)) t x) :
    EndsString limits stack role x read (backslash :: t) := by
  cases t with
  | nil => cases h
  | cons c t =>
    cases hletter : escaped? c with
    | some d =>
      have hstep : State.step limits .start (inString stack role read (.escape .start false)) c =
          .ok (inString stack role (d :: read) .plain) := by
        simp [State.step, stringStep, hletter]
      obtain ⟨w, u, rest, rfl, hbody, hrest⟩ :=
        shorter _ t (Nat.lt_succ_self _) ((yields_of_step hstep).mp h)
      exact ⟨_, _, rest, rfl, .letter (escaped?_eq_some.mp hletter) hbody, by simpa using hrest⟩
    | none =>
      by_cases hu : c = CodePoint.ofChar 'u'
      · subst hu
        obtain ⟨escape, unit, t', hunit, happend, hrest⟩ :=
          yields_digits.mp ((yields_of_step rfl).mp h)
        have hlength := congrArg List.length happend
        simp only [List.length_cons, List.length_append, hunit.length] at hlength
        rw [happend]
        rw [pushUnit_joins_false] at hrest
        refine endsString_of_unit hunit (fun read t'' hle h' => shorter read t'' ?_ h') hrest
        rw [List.length_cons]
        omega
      · refine absurd h (not_yields_of_step (f := .malformed .badEscape .start) ?_)
        simp [State.step, stringStep, hletter, hu]

/-- Inside a string, what the reader takes is a body and the quotation mark. -/
theorem endsString {t : Text} (h : State.Yields limits (inString stack role read .plain) t x) :
    EndsString limits stack role x read t := by
  -- The induction is on the length of the text, since an escape is taken whole.
  induction hlength : t.length using Nat.strong_induction_on generalizing t read with
  | _ n ih =>
    cases t with
    | nil => cases h
    | cons c t =>
      have shorter : ∀ read t', t'.length ≤ t.length →
          State.Yields limits (inString stack role read .plain) t' x →
            EndsString limits stack role x read t' := by
        intro read t' hle h'
        refine ih t'.length ?_ h' rfl
        rw [← hlength, List.length_cons]
        omega
      by_cases hquote : c = quotationMark
      · subst hquote
        exact ⟨[], [], t, rfl, .nil, by simpa using (yields_of_step rfl).mp h⟩
      by_cases hslash : c = backslash
      · subst hslash
        exact endsString_of_escape (fun read t' hlt => shorter read t' hlt.le)
          ((yields_of_step rfl).mp h)
      by_cases hcontrol : c.val < 0x20
      · refine absurd h (not_yields_of_step (f := .malformed .controlCharacter .start) ?_)
        simp [State.step, stringStep, plainStep, hquote, hslash, hcontrol]
      · have hstep : State.step limits .start (inString stack role read .plain) c =
            .ok (inString stack role (c :: read) .plain) := by
          simp [State.step, stringStep, plainStep, hquote, hslash, hcontrol]
        obtain ⟨w, u, rest, rfl, hbody, hrest⟩ :=
          shorter _ t le_rfl ((yields_of_step hstep).mp h)
        exact ⟨_, _, rest, rfl, .plain hquote hslash (Nat.not_lt.mp hcontrol) hbody,
          by simpa using hrest⟩

end Lectern.Json
