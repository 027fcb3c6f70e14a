-- What the reader makes of the rest of a text, from a state on. Where it
-- begins plays no part, so every step is taken at the same place. Between the
-- parts of a value a step is told by the white space in front and by what
-- comes behind that.
import Lectern.Proofs.Grammar
import Lectern.Proofs.Places
import Lectern.Proofs.States

namespace Lectern.Json

open CodePoint (closeBrace quotationMark)

variable {limits : Limits}

/-- From the state on, the text is read and gives the value. -/
def State.Yields (limits : Limits) (s : State) (t : Text) (x : Value) : Prop :=
  readFrom limits .start s t = .ok x

/-! ## One step -/

theorem yields_iff {here : Place} {s : State} {t : Text} {x : Value} :
    readFrom limits here s t = .ok x ↔ s.Yields limits t x :=
  readFrom_eq_ok_of_unplaced rfl

theorem yields_of_step {s s' : State} {c : CodePoint} {t : Text} {x : Value}
    (hs : s.step limits .start c = .ok s') : s.Yields limits (c :: t) x ↔ s'.Yields limits t x := by
  rw [State.Yields, readFrom, hs]
  exact yields_iff

theorem not_yields_of_step {s : State} {c : CodePoint} {t : Text} {x : Value} {f : Fault}
    (hs : s.step limits .start c = .error f) : ¬ s.Yields limits (c :: t) x := by
  rw [State.Yields, readFrom, hs]
  intro h
  cases h

/-- States that take the same first step read the rest of a text alike. -/
theorem yields_congr {s s' : State} {c : CodePoint} {t : Text} {x : Value}
    (hs : s.step limits .start c = s'.step limits .start c) :
    s.Yields limits (c :: t) x ↔ s'.Yields limits (c :: t) x := by
  rw [State.Yields, State.Yields, readFrom, readFrom, hs]

/-! ## White space -/

theorem isSpace_iff {c : CodePoint} :
    isSpace c ↔ c = CodePoint.ofChar ' ' ∨ c = CodePoint.ofChar '\t' ∨ c = CodePoint.lineFeed ∨
      c = CodePoint.carriageReturn := by
  obtain ⟨val, lt⟩ := c
  simp [isSpace, CodePoint.ofChar, CodePoint.lineFeed, CodePoint.carriageReturn, or_assoc]

theorem Spaces.cons {c : CodePoint} {t : Text} (h : Spaces t) (hc : isSpace c) : Spaces (c :: t) :=
  List.forall_mem_cons.mpr ⟨isSpace_iff.mp hc, h⟩

theorem exists_spaces (t : Text) :
    ∃ s rest, Spaces s ∧ t = s ++ rest ∧ ∀ c r, rest = c :: r → isSpace c = false := by
  induction t with
  | nil => exact ⟨[], [], nofun, rfl, nofun⟩
  | cons c t ih =>
    by_cases hc : isSpace c
    · obtain ⟨s, rest, hs, rfl, hrest⟩ := ih
      exact ⟨c :: s, rest, hs.cons hc, rfl, hrest⟩
    · refine ⟨[], c :: t, nofun, rfl, ?_⟩
      rintro d r ⟨⟩
      simpa using hc

/-- The phases between the parts of a value. -/
def Phase.IsGap : Phase → Prop
  | .value | .firstItem | .firstName | .name _ | .colon _ _ | .ended _ => True
  | .literal _ _ _ | .numeral _ _ _ | .string _ _ _ _ => False

theorem Phase.IsGap.step {phase : Phase} (h : phase.IsGap) (stack : List Frame) {c : CodePoint}
    (hc : isSpace c) : State.step limits .start ⟨stack, phase⟩ c = .ok ⟨stack, phase⟩ := by
  cases phase <;> simp [State.step, afterValue, hc] <;> exact h.elim

/-- White space between the parts of a value is passed over. -/
theorem yields_spaces (phase : Phase) (h : phase.IsGap) (stack : List Frame) {s : Text}
    (hs : Spaces s) (t : Text) {x : Value} :
    State.Yields limits ⟨stack, phase⟩ (s ++ t) x ↔ State.Yields limits ⟨stack, phase⟩ t x := by
  induction s with
  | nil => rfl
  | cons c s ih =>
    obtain ⟨hc, hs⟩ := List.forall_mem_cons.mp hs
    rw [List.cons_append, yields_of_step (h.step stack (isSpace_iff.mpr hc)), ih hs]

/-- Behind white space, where the text does not end, stands a code point that
the reader takes. -/
theorem exists_step (phase : Phase) (h : phase.IsGap) {stack : List Frame} {t : Text} {x : Value}
    (hend : State.finish limits .start ⟨stack, phase⟩ ≠ .ok x)
    (ht : State.Yields limits ⟨stack, phase⟩ t x) :
    ∃ s c rest s', Spaces s ∧ isSpace c = false ∧ t = s ++ c :: rest ∧
      State.step limits .start ⟨stack, phase⟩ c = .ok s' ∧ s'.Yields limits rest x := by
  obtain ⟨s, rest, hs, rfl, hrest⟩ := exists_spaces t
  rw [yields_spaces phase h stack hs] at ht
  cases rest with
  | nil => exact absurd ht hend
  | cons c rest =>
    cases hstep : State.step limits .start ⟨stack, phase⟩ c with
    | error f => exact absurd ht (not_yields_of_step hstep)
    | ok s' =>
      exact ⟨s, c, rest, s', hs, hrest c rest rfl, rfl, hstep, (yields_of_step hstep).mp ht⟩

/-! ## Words -/

/-- A literal is read to its last code point. -/
theorem yields_literal (stack : List Frame) {left : Text} (hleft : left ≠ []) {v : Value}
    {t : Text} {x : Value} :
    State.Yields limits ⟨stack, .literal .start left v⟩ t x ↔
      ∃ rest, t = left ++ rest ∧ State.Yields limits ⟨stack, .ended v⟩ rest x := by
  induction left generalizing t with
  | nil => exact absurd rfl hleft
  | cons d left ih =>
    cases t with
    | nil =>
      constructor
      · nofun
      · rintro ⟨rest, ⟨⟩, _⟩
    | cons c t =>
      by_cases hc : c = d
      · subst hc
        cases left with
        | nil =>
          have hstep : State.step limits .start ⟨stack, .literal .start [c] v⟩ c =
              .ok ⟨stack, .ended v⟩ := by
            simp [State.step, literalStep]
          rw [yields_of_step hstep]
          simp
        | cons e left =>
          have hstep : State.step limits .start ⟨stack, .literal .start (c :: e :: left) v⟩ c =
              .ok ⟨stack, .literal .start (e :: left) v⟩ := by
            simp [State.step, literalStep]
          rw [yields_of_step hstep, ih (List.cons_ne_nil e left)]
          simp
      · have hstep : State.step limits .start ⟨stack, .literal .start (d :: left) v⟩ c =
            .error (.malformed .noValue .start) := by
          simp [State.step, literalStep, hc]
        constructor
        · exact fun h => absurd h (not_yields_of_step hstep)
        · rintro ⟨rest, ht, _⟩
          exact absurd (List.cons.inj ht).1 hc

/-! ## The ends of values -/

/-- A value that stands alone is the value of the text. -/
theorem yields_ended_alone {v x : Value} {t : Text} :
    State.Yields limits ⟨[], .ended v⟩ t x ↔ Spaces t ∧ v = x := by
  obtain ⟨s, rest, hs, rfl, hrest⟩ := exists_spaces t
  rw [yields_spaces (.ended v) trivial [] hs]
  cases rest with
  | nil => simp [State.Yields, readFrom, State.finish, endWith, hs]
  | cons c r =>
    have hc := hrest c r rfl
    have hstep : State.step limits .start ⟨[], .ended v⟩ c = .error (leftover [] .start) := by
      simp [State.step, afterValue, hc]
    constructor
    · exact fun h => absurd h (not_yields_of_step hstep)
    · rintro ⟨h, _⟩
      have := isSpace_iff.mpr (h c (by simp))
      simp [hc] at this

theorem yields_ended_item {stack : List Frame} {before : List Value} {v x : Value} {t : Text}
    (h : State.Yields limits ⟨.array before :: stack, .ended v⟩ t x) :
    ∃ s rest, Spaces s ∧
      (t = s ++ CodePoint.ofChar ',' :: rest ∧
          State.Yields limits ⟨.array (v :: before) :: stack, .value⟩ rest x ∨
        t = s ++ CodePoint.ofChar ']' :: rest ∧
          State.Yields limits ⟨stack, .ended (.array (v :: before).reverse)⟩ rest x) := by
  have hend : State.finish limits .start ⟨.array before :: stack, .ended v⟩ ≠ .ok x := nofun
  obtain ⟨s, c, rest, s', hs, hc, rfl, hstep, hrest⟩ := exists_step (.ended v) trivial hend h
  refine ⟨s, rest, hs, ?_⟩
  simp only [State.step, afterValue, hc] at hstep
  grind

theorem yields_ended_member {stack : List Frame} {before : Fields} {name : Text} {v x : Value}
    {t : Text} (h : State.Yields limits ⟨.object before name :: stack, .ended v⟩ t x) :
    ∃ s rest, Spaces s ∧
      (t = s ++ CodePoint.ofChar ',' :: rest ∧
          State.Yields limits ⟨stack, .name (before.put name v)⟩ rest x ∨
        t = s ++ closeBrace :: rest ∧
          State.Yields limits ⟨stack, .ended (.object (before.put name v))⟩ rest x) := by
  have hend : State.finish limits .start ⟨.object before name :: stack, .ended v⟩ ≠ .ok x := nofun
  obtain ⟨s, c, rest, s', hs, hc, rfl, hstep, hrest⟩ := exists_step (.ended v) trivial hend h
  refine ⟨s, rest, hs, ?_⟩
  simp only [State.step, afterValue, hc] at hstep
  grind

/-! ## Behind a bracket -/

/-- Where a bracket may close at once, it does, or the reader goes on as in the
state in which it must not. -/
theorem yields_first {stack : List Frame} (first : Phase) (next : State) {close : CodePoint}
    {v x : Value} {f : Fault} (hfirst : first.IsGap) (hnext : next.phase.IsGap)
    (hend : State.finish limits .start ⟨stack, first⟩ ≠ .ok x)
    (hend' : next.finish limits .start ≠ .ok x)
    (hclose : State.step limits .start ⟨stack, first⟩ close = .ok ⟨stack, .ended v⟩)
    (hopen : next.step limits .start close = .error f)
    (hsame : ∀ c, isSpace c = false → c ≠ close →
      State.step limits .start ⟨stack, first⟩ c = next.step limits .start c) {t : Text} :
    State.Yields limits ⟨stack, first⟩ t x ↔
      (∃ s rest, Spaces s ∧ t = s ++ close :: rest ∧
        State.Yields limits ⟨stack, .ended v⟩ rest x) ∨
      next.Yields limits t x := by
  constructor
  · intro h
    obtain ⟨s, c, rest, s', hs, hc, rfl, hstep, hrest⟩ := exists_step first hfirst hend h
    by_cases hcc : c = close
    · subst hcc
      rw [hclose] at hstep
      cases hstep
      exact .inl ⟨s, rest, hs, rfl, hrest⟩
    · rw [hsame c hc hcc] at hstep
      right
      rw [yields_spaces next.phase hnext next.stack hs]
      exact (yields_of_step hstep).mpr hrest
  · rintro (⟨s, rest, hs, rfl, h⟩ | h)
    · rw [yields_spaces first hfirst stack hs]
      exact (yields_of_step hclose).mpr h
    · obtain ⟨s, c, rest, s', hs, hc, rfl, hstep, hrest⟩ := exists_step next.phase hnext hend' h
      have hcc : c ≠ close := by
        rintro rfl
        rw [hopen] at hstep
        cases hstep
      rw [yields_spaces first hfirst stack hs]
      exact (yields_of_step ((hsame c hc hcc).trans hstep)).mpr hrest

/-- Behind the bracket of an array comes the other one, or the first item. -/
theorem yields_firstItem {stack : List Frame} {t : Text} {x : Value} :
    State.Yields limits ⟨stack, .firstItem⟩ t x ↔
      (∃ s rest, Spaces s ∧ t = s ++ CodePoint.ofChar ']' :: rest ∧
        State.Yields limits ⟨stack, .ended (.array [])⟩ rest x) ∨
      State.Yields limits ⟨.array [] :: stack, .value⟩ t x :=
  yields_first .firstItem ⟨.array [] :: stack, .value⟩ trivial trivial nofun nofun rfl rfl
    fun c hc hclose => by simp [State.step, hc, hclose]

/-- Behind the brace of an object comes the other one, or the first name. -/
theorem yields_firstName {stack : List Frame} {t : Text} {x : Value} :
    State.Yields limits ⟨stack, .firstName⟩ t x ↔
      (∃ s rest, Spaces s ∧ t = s ++ closeBrace :: rest ∧
        State.Yields limits ⟨stack, .ended (.object [])⟩ rest x) ∨
      State.Yields limits ⟨stack, .name []⟩ t x :=
  yields_first .firstName ⟨stack, .name []⟩ trivial trivial nofun nofun rfl rfl
    fun c hc hclose => by simp [State.step, hc, hclose]

end Lectern.Json
