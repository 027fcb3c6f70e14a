-- What is known of the states that the reader comes to: what is left of a
-- literal, and where the places that a state keeps lie in the text.
import Lectern.Proofs.Reading

namespace Lectern.Json

variable {limits : Limits}

/-! ## Literals -/

/-- What is left of a literal is there, and no space is in it. -/
def State.Proper (s : State) : Prop :=
  ∀ start left v, s.phase = .literal start left v → left ≠ [] ∧ ∀ c ∈ left, isSpace c = false

theorem State.proper_start : start.Proper := nofun

theorem proper_of_literal? {c : CodePoint} {left : Text} {v : Value}
    (h : literal? c = some (left, v)) : left ≠ [] ∧ ∀ c ∈ left, isSpace c = false := by
  unfold literal? at h
  split_ifs at h <;> cases h <;> decide

theorem afterValue_ne_literal {here start : Place} {stack : List Frame} {v w : Value}
    {c : CodePoint} {left : Text} {s' : State} (h : afterValue here stack v c = .ok s') :
    s'.phase ≠ .literal start left w := by
  unfold afterValue at h
  grind

theorem afterNumeral_ne_literal {here start : Place} {stack : List Frame} {n : Numeral}
    {w : Value} {c : CodePoint} {left : Text} {s' : State}
    (h : afterNumeral limits here stack n c = .ok s') : s'.phase ≠ .literal start left w := by
  unfold afterNumeral at h
  cases hv : n.value limits with
  | error f =>
    rw [hv] at h
    cases h
  | ok v =>
    rw [hv] at h
    exact afterValue_ne_literal h

theorem startValue_literal {here start : Place} {stack : List Frame} {c : CodePoint} {left : Text}
    {v : Value} {s' : State} (h : startValue limits here stack c = .ok s')
    (hphase : s'.phase = .literal start left v) : literal? c = some (left, v) := by
  unfold startValue at h
  grind

theorem numeralStep_literal {here start start' : Place} {stack : List Frame} {n : Numeral}
    {part : NumeralPart} {c : CodePoint} {left : Text} {v : Value} {s' : State}
    (h : numeralStep limits here stack start n part c = .ok s')
    (hphase : s'.phase = .literal start' left v) : left = Text.ofString "nfinity" := by
  cases part <;> unfold numeralStep at h <;> grind [afterNumeral_ne_literal]

theorem State.Proper.step {here : Place} {s s' : State} {c : CodePoint} (h : s.Proper)
    (hs : s.step limits here c = .ok s') : s'.Proper := by
  obtain ⟨stack, phase⟩ := s
  intro start left v hphase
  have hstart : ∀ stack, startValue limits here stack c = .ok s' →
      left ≠ [] ∧ ∀ c ∈ left, isSpace c = false :=
    fun _ hv => proper_of_literal? (startValue_literal hv hphase)
  cases phase with
  | literal _ left' _ =>
    obtain ⟨hleft, hspace⟩ := h _ _ _ rfl
    simp only [State.step, literalStep] at hs
    grind
  | numeral start' n part =>
    rw [numeralStep_literal hs hphase]
    decide
  | ended w => exact absurd hphase (afterValue_ne_literal hs)
  | string start' role read part =>
    simp only [State.step, stringStep, plainStep, Role.ended] at hs
    grind
  | _ =>
    simp only [State.step] at hs
    grind

theorem State.proper_of_run {here : Place} {p : Text} {s s' : State} (h : s.Proper)
    (hp : s.run limits here p = .ok s') : s'.Proper :=
  State.run_induction (P := fun _ s => s.Proper) h (fun _ _ _ _ _ h hs => h.step hs) hp

/-! ## Places -/

/-- The places that a part of a number keeps. -/
def NumeralPart.places : NumeralPart → List Place
  | .point p | .letter p | .exponentSign p => [p]
  | .sign | .zero | .whole | .fraction | .exponent => []

/-- The places that a part of a string keeps. -/
def StringPart.places : StringPart → List Place
  | .plain => []
  | .unit p | .escape p _ | .digits p _ _ => [p]

/-- The places that a phase keeps. -/
def Phase.places : Phase → List Place
  | .literal start _ _ => [start]
  | .numeral start _ part => start :: part.places
  | .string start _ _ part => start :: part.places
  | _ => []

/-- The place is a new one, or the phase keeps it. -/
def Phase.Knows (phase : Phase) (here p : Place) : Prop := p = here ∨ p ∈ phase.places

/-- The places in a result are known. -/
def Known (phase : Phase) (here : Place) : Except Fault State → Prop
  | .ok s => ∀ p ∈ s.phase.places, phase.Knows here p
  | .error (.malformed _ p) => phase.Knows here p
  | .error _ => True

theorem known_afterValue (phase : Phase) (here : Place) (stack : List Frame) (v : Value)
    (c : CodePoint) : Known phase here (afterValue here stack v c) := by
  unfold afterValue leftover
  grind [Known, Phase.Knows, Phase.places]

theorem known_startValue (phase : Phase) (here : Place) (stack : List Frame) (c : CodePoint) :
    Known phase here (startValue limits here stack c) := by
  unfold startValue
  grind [Known, Phase.Knows, Phase.places, NumeralPart.places, StringPart.places]

theorem known_afterNumeral (phase : Phase) (here : Place) (stack : List Frame) (n : Numeral)
    (c : CodePoint) : Known phase here (afterNumeral limits here stack n c) := by
  unfold afterNumeral Numeral.value
  grind [Known, known_afterValue]

theorem known_numeralFault {phase : Phase} {here p : Place} {stack : List Frame} {n : Numeral}
    (hp : p ∈ phase.places) :
    Known phase here (.error (numeralFault limits stack n p)) := by
  unfold numeralFault Numeral.value leftover
  grind [Known, Phase.Knows]

theorem known_stringStep (here : Place) (stack : List Frame) (start : Place) (role : Role)
    (read : Text) (part : StringPart) (c : CodePoint) :
    Known (.string start role read part) here (stringStep here stack start role read part c) := by
  have hplain : ∀ joins, Known (.string start role read part) here
      (plainStep here stack start role read joins c) := by
    intro joins
    unfold plainStep Role.ended
    grind [Known, Phase.Knows, Phase.places, StringPart.places]
  cases part with
  | plain => exact hplain false
  | unit place => exact hplain _
  | escape place joins =>
    unfold stringStep
    grind [Known, Phase.Knows, Phase.places, StringPart.places]
  | digits place joins d =>
    simp only [stringStep]
    cases c.hexDigit? <;> grind [Known, Phase.Knows, Phase.places, StringPart.places]

theorem State.known_step (limits : Limits) (here : Place) (s : State) (c : CodePoint) :
    Known s.phase here (s.step limits here c) := by
  obtain ⟨stack, phase⟩ := s
  cases phase with
  | literal start left v =>
    simp only [State.step, literalStep]
    grind [Known, Phase.Knows, Phase.places]
  | numeral start n part =>
    simp only [State.step]
    cases part <;> unfold numeralStep <;>
      grind [Known, Phase.Knows, Phase.places, NumeralPart.places, known_afterNumeral,
        known_numeralFault]
  | string start role read part => exact known_stringStep here stack start role read part c
  | ended v => exact known_afterValue _ here stack v c
  | _ =>
    simp only [State.step]
    grind [Known, Phase.Knows, Phase.places, StringPart.places, known_startValue]

/-- At the end of a text, too, only known places are reported. -/
theorem State.knows_of_finish {here p : Place} {s : State} {complaint : Complaint}
    (h : s.finish limits here = .error (.malformed complaint p)) : s.phase.Knows here p := by
  obtain ⟨stack, phase⟩ := s
  have hend : ∀ v, endWith here stack v = .error (.malformed complaint p) →
      phase.Knows here p := by
    intro v hv
    unfold endWith leftover at hv
    grind [Phase.Knows]
  cases phase with
  | numeral start n part =>
    simp only [finish] at h
    unfold numeralFault Numeral.value leftover at h
    grind [Phase.Knows, Phase.places, NumeralPart.places]
  | string start role read part =>
    cases part <;> cases h <;> simp [Phase.Knows, Phase.places, StringPart.places]
  | ended v => exact hend v h
  | _ =>
    cases h
    simp [Phase.Knows, Phase.places]

/-- The places that a state keeps are places that the run has passed. -/
theorem State.exists_of_mem_places {p : Text} {s : State}
    (h : start.run limits .start p = .ok s) :
    ∀ place ∈ s.phase.places, ∃ q, q <+: p ∧ place = Place.after q := by
  refine State.run_induction
    (P := fun p s => ∀ place ∈ s.phase.places, ∃ q, q <+: p ∧ place = Place.after q)
    (fun _ hplace => absurd hplace List.not_mem_nil) ?_ h
  intro p s c s' _ ih hs place hplace
  have hknown := State.known_step limits (p.foldl Place.next .start) s c
  rw [hs] at hknown
  rcases hknown place hplace with rfl | hold
  · exact ⟨p, List.prefix_append p [c], rfl⟩
  · obtain ⟨q, hq, rfl⟩ := ih place hold
    exact ⟨q, hq.trans (List.prefix_append p [c]), rfl⟩

end Lectern.Json
