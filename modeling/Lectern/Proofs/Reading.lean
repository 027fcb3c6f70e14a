-- Runs of the JSON reader over a part of a text. A run over two parts is a
-- run over the first and then one over the second, and a text that fails has
-- a longest part that is good.
import Mathlib.Data.List.Induction
import Lectern.Json.Reader

namespace Lectern.Json

variable {limits : Limits}

/-- The state after a part of a text. -/
def State.run (limits : Limits) (here : Place) (s : State) : Text → Except Fault State
  | [] => .ok s
  | c :: rest =>
    match s.step limits here c with
    | .error f => .error f
    | .ok s => run limits (here.next c) s rest

theorem State.run_append (here : Place) (s : State) (p q : Text) :
    s.run limits here (p ++ q) =
      match s.run limits here p with
      | .error f => .error f
      | .ok s' => s'.run limits (p.foldl Place.next here) q := by
  induction p generalizing here s with
  | nil => rfl
  | cons c p ih =>
    simp only [List.cons_append, run, List.foldl_cons]
    cases s.step limits here c with
    | error f => rfl
    | ok s' => exact ih (here.next c) s'

theorem readFrom_append (here : Place) (s : State) (p q : Text) :
    readFrom limits here s (p ++ q) =
      match s.run limits here p with
      | .error f => .error f
      | .ok s' => readFrom limits (p.foldl Place.next here) s' q := by
  induction p generalizing here s with
  | nil => rfl
  | cons c p ih =>
    simp only [List.cons_append, readFrom, State.run, List.foldl_cons]
    cases s.step limits here c with
    | error f => rfl
    | ok s' => exact ih (here.next c) s'

/-- What holds before a run and is kept by every step of it holds after it. -/
theorem State.run_induction {P : Text → State → Prop} {here : Place} {start : State}
    (base : P [] start)
    (step : ∀ p s c s', start.run limits here p = .ok s → P p s →
      s.step limits (p.foldl Place.next here) c = .ok s' → P (p ++ [c]) s')
    {p : Text} {s : State} (h : start.run limits here p = .ok s) : P p s := by
  induction p using List.reverseRecOn generalizing s with
  | nil =>
    cases h
    exact base
  | append_singleton p c ih =>
    rw [run_append] at h
    cases hp : start.run limits here p with
    | error f =>
      rw [hp] at h
      cases h
    | ok s₀ =>
      rw [hp] at h
      simp only [run] at h
      cases hs : s₀.step limits (p.foldl Place.next here) c with
      | error f =>
        rw [hs] at h
        cases h
      | ok s₁ =>
        rw [hs] at h
        cases h
        exact step p s₀ c _ hp (ih hp) hs

/-- A text fails where a part of it is good and the next code point, or the
end of the text, is not. -/
theorem readFrom_eq_error {here : Place} {start : State} {t : Text} {f : Fault}
    (h : readFrom limits here start t = .error f) :
    ∃ p s, start.run limits here p = .ok s ∧
      ((t = p ∧ s.finish limits (p.foldl Place.next here) = .error f) ∨
        ∃ c rest, t = p ++ c :: rest ∧ s.step limits (p.foldl Place.next here) c = .error f) := by
  induction t generalizing here start with
  | nil => exact ⟨[], start, rfl, .inl ⟨rfl, h⟩⟩
  | cons c t ih =>
    rw [readFrom] at h
    cases hs : start.step limits here c with
    | error g =>
      rw [hs] at h
      cases h
      exact ⟨[], start, rfl, .inr ⟨c, t, rfl, hs⟩⟩
    | ok s₁ =>
      rw [hs] at h
      obtain ⟨p, s, hp, hend⟩ := ih h
      refine ⟨c :: p, s, by rw [State.run, hs]; exact hp, ?_⟩
      rcases hend with ⟨rfl, hf⟩ | ⟨d, rest, rfl, hf⟩
      · exact .inl ⟨rfl, hf⟩
      · exact .inr ⟨d, rest, rfl, hf⟩

end Lectern.Json
