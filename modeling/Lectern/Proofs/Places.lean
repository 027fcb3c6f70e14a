-- The reader keeps places only to report them. What it answers, and the kind
-- of fault that it reports, do not depend on where it stands, so two runs that
-- differ in places go on in step.
import Lectern.Proofs.Reading

namespace Lectern.Json

variable {limits : Limits}

/-! ## States and faults without places -/

/-- The part with its place forgotten. -/
def NumeralPart.unplaced : NumeralPart → NumeralPart
  | .point _ => .point .start
  | .letter _ => .letter .start
  | .exponentSign _ => .exponentSign .start
  | part => part

/-- The part with its place forgotten. -/
def StringPart.unplaced : StringPart → StringPart
  | .plain => .plain
  | .unit _ => .unit .start
  | .escape _ joins => .escape .start joins
  | .digits _ joins read => .digits .start joins read

/-- The phase with its places forgotten. -/
def Phase.unplaced : Phase → Phase
  | .literal _ left v => .literal .start left v
  | .numeral _ n part => .numeral .start n part.unplaced
  | .string _ role read part => .string .start role read part.unplaced
  | phase => phase

/-- The state with its places forgotten. -/
def State.unplaced (s : State) : State := ⟨s.stack, s.phase.unplaced⟩

/-- The fault with its place forgotten. -/
def Fault.unplaced : Fault → Fault
  | .malformed complaint _ => .malformed complaint .start
  | f => f

/-- A result with the places in it forgotten. -/
def unplaced : Except Fault State → Except Fault State
  | .ok s => .ok s.unplaced
  | .error f => .error f.unplaced

/-! ## Steps -/

theorem leftover_unplaced (stack : List Frame) (p : Place) :
    (leftover stack p).unplaced = leftover stack .start := by
  cases stack <;> rfl

theorem numeralFault_unplaced (stack : List Frame) (n : Numeral) (p : Place) :
    (numeralFault limits stack n p).unplaced = (numeralFault limits stack n .start).unplaced := by
  unfold numeralFault
  cases n.value limits with
  | error f => rfl
  | ok v => rw [leftover_unplaced, leftover_unplaced]

theorem afterValue_unplaced (p : Place) (stack : List Frame) (v : Value) (c : CodePoint) :
    unplaced (afterValue p stack v c) = unplaced (afterValue .start stack v c) := by
  unfold afterValue
  grind [unplaced, leftover_unplaced]

theorem startValue_unplaced (p : Place) (stack : List Frame) (c : CodePoint) :
    unplaced (startValue limits p stack c) = unplaced (startValue limits .start stack c) := by
  unfold startValue
  grind [unplaced, State.unplaced, Phase.unplaced, Fault.unplaced]

theorem literalStep_unplaced (stack : List Frame) (start : Place) (left : Text) (v : Value)
    (c : CodePoint) :
    unplaced (literalStep stack start left v c) = unplaced (literalStep stack .start left v c) := by
  unfold literalStep
  grind [unplaced, State.unplaced, Phase.unplaced, Fault.unplaced]

theorem afterNumeral_unplaced (p : Place) (stack : List Frame) (n : Numeral) (c : CodePoint) :
    unplaced (afterNumeral limits p stack n c) =
      unplaced (afterNumeral limits .start stack n c) := by
  unfold afterNumeral
  cases n.value limits with
  | error f => rfl
  | ok v => exact afterValue_unplaced p stack v c

theorem numeralStep_unplaced (p : Place) (stack : List Frame) (start : Place) (n : Numeral)
    (part : NumeralPart) (c : CodePoint) :
    unplaced (numeralStep limits p stack start n part c) =
      unplaced (numeralStep limits .start stack .start n part.unplaced c) := by
  cases part <;> unfold numeralStep <;>
    grind [unplaced, State.unplaced, Phase.unplaced, NumeralPart.unplaced, Fault.unplaced,
      afterNumeral_unplaced, numeralFault_unplaced]

theorem plainStep_unplaced (p : Place) (stack : List Frame) (start : Place) (role : Role)
    (read : Text) (joins : Bool) (c : CodePoint) :
    unplaced (plainStep p stack start role read joins c) =
      unplaced (plainStep .start stack .start role read joins c) := by
  unfold plainStep
  grind [unplaced, State.unplaced, Phase.unplaced, StringPart.unplaced, Fault.unplaced]

theorem stringStep_unplaced (p : Place) (stack : List Frame) (start : Place) (role : Role)
    (read : Text) (part : StringPart) (c : CodePoint) :
    unplaced (stringStep p stack start role read part c) =
      unplaced (stringStep .start stack .start role read part.unplaced c) := by
  cases part <;> unfold stringStep <;>
    grind [unplaced, State.unplaced, Phase.unplaced, StringPart.unplaced, Fault.unplaced,
      plainStep_unplaced]

/-- A step goes the same way from the same state at another place. -/
theorem State.step_unplaced (p : Place) (s : State) (c : CodePoint) :
    Json.unplaced (s.step limits p c) = Json.unplaced (s.unplaced.step limits .start c) := by
  obtain ⟨stack, phase⟩ := s
  cases phase with
  | numeral start n part => exact numeralStep_unplaced p stack start n part c
  | string start role read part => exact stringStep_unplaced p stack start role read part c
  | literal start left v => exact literalStep_unplaced stack start left v c
  | ended v => exact afterValue_unplaced p stack v c
  | _ =>
    unfold State.step
    grind [Json.unplaced, State.unplaced, Phase.unplaced, StringPart.unplaced, Fault.unplaced,
      startValue_unplaced]

/-! ## Runs -/

theorem State.finish_unplaced (p : Place) (s : State) :
    (s.finish limits p).mapError Fault.unplaced =
      (s.unplaced.finish limits .start).mapError Fault.unplaced := by
  obtain ⟨stack, phase⟩ := s
  have hend : ∀ v, (endWith p stack v).mapError Fault.unplaced =
      (endWith .start stack v).mapError Fault.unplaced := by
    intro v
    unfold endWith
    cases stack <;> rfl
  cases phase with
  | numeral start n part =>
    cases part <;> simp only [finish, unplaced, Phase.unplaced, NumeralPart.unplaced] <;>
      grind [Except.mapError, numeralFault_unplaced, Fault.unplaced]
  | string start role read part => cases part <;> rfl
  | ended v => exact hend v
  | _ => rfl

/-- Two results that differ in places are two states that do, or two faults. -/
theorem exists_of_unplaced_eq {r r' : Except Fault State} (h : unplaced r = unplaced r') :
    (∃ s s', r = .ok s ∧ r' = .ok s' ∧ s.unplaced = s'.unplaced) ∨
      ∃ f f', r = .error f ∧ r' = .error f' ∧ f.unplaced = f'.unplaced := by
  cases r with
  | ok s =>
    cases r' with
    | ok s' => exact .inl ⟨s, s', rfl, rfl, Except.ok.inj h⟩
    | error f' => cases h
  | error f =>
    cases r' with
    | ok s' => cases h
    | error f' => exact .inr ⟨f, f', rfl, rfl, Except.error.inj h⟩

theorem State.step_congr (limits : Limits) {s s' : State} (h : s.unplaced = s'.unplaced)
    (p q : Place) (c : CodePoint) :
    Json.unplaced (s.step limits p c) = Json.unplaced (s'.step limits q c) := by
  rw [State.step_unplaced, h, ← State.step_unplaced]

theorem State.finish_congr {s s' : State} (h : s.unplaced = s'.unplaced) (p q : Place) :
    (s.finish limits p).mapError Fault.unplaced = (s'.finish limits q).mapError Fault.unplaced := by
  rw [State.finish_unplaced, h, ← State.finish_unplaced]

/-- From states that differ in places, the rest of a text is read alike. -/
theorem readFrom_congr {s s' : State} (h : s.unplaced = s'.unplaced) (p q : Place) (t : Text) :
    (readFrom limits p s t).mapError Fault.unplaced =
      (readFrom limits q s' t).mapError Fault.unplaced := by
  induction t generalizing s s' p q with
  | nil => exact State.finish_congr h p q
  | cons c t ih =>
    rw [readFrom, readFrom]
    rcases exists_of_unplaced_eq (State.step_congr limits h p q c) with
      ⟨s₁, s₁', hs, hs', heq⟩ | ⟨f, f', hf, hf', heq⟩
    · rw [hs, hs']
      exact ih heq (p.next c) (q.next c)
    · rw [hf, hf']
      exact congrArg Except.error heq

theorem mapError_unplaced_eq_ok {r : Except Fault Value} {v : Value} :
    r.mapError Fault.unplaced = .ok v ↔ r = .ok v := by
  cases r <;> simp [Except.mapError]

/-- What is read does not depend on where the reading begins. -/
theorem readFrom_eq_ok_of_unplaced {s s' : State} (h : s.unplaced = s'.unplaced) {p q : Place}
    {t : Text} {v : Value} :
    readFrom limits p s t = .ok v ↔ readFrom limits q s' t = .ok v := by
  rw [← mapError_unplaced_eq_ok, readFrom_congr h p q t, mapError_unplaced_eq_ok]

end Lectern.Json
