-- Where a fault is reported. Every state that the reader comes to can be
-- completed to a value, and a fault is reported at the place where the reader
-- stands or at a place that it has passed. So the text in front of the place
-- is the beginning of a text that has a value.
import Lectern.Proofs.LongNumbers
import Lectern.Proofs.Places
import Lectern.Proofs.States

namespace Lectern

open CodePoint (backslash closeBrace lineFeed quotationMark)

/-! ## Lines and columns -/

namespace Place

/-- The line is one more than the line feeds that come before. -/
theorem after_line (t : Text) : (after t).line = 1 + t.count lineFeed := by
  induction t using List.reverseRecOn with
  | nil => rfl
  | append_singleton t c ih =>
    rw [after_snoc, next, List.count_append]
    split
    · rename_i hc
      simp [hc, ih]
      omega
    · rename_i hc
      simp [hc, ih]

/-- The column is one more than the code points behind the last line feed. -/
theorem after_column (t : Text) :
    (after t).column = 1 + (t.reverse.takeWhile (· ≠ lineFeed)).length := by
  induction t using List.reverseRecOn with
  | nil => rfl
  | append_singleton t c ih =>
    rw [after_snoc, next, List.reverse_append, List.reverse_singleton, List.singleton_append,
      List.takeWhile_cons]
    split
    · rename_i hc
      simp [hc]
    · rename_i hc
      simp [hc, ih]
      omega

end Place

namespace Json

variable {limits : Limits}

/-! ## States that can be completed -/

/-- Some text leads from the state to a value. -/
def State.Completes (limits : Limits) (s : State) : Prop :=
  ∃ here rest v, readFrom limits here s rest = .ok v

theorem State.completes_of_step {s s' : State} (c : CodePoint)
    (hs : s.step limits .start c = .ok s') (h : s'.Completes limits) : s.Completes limits := by
  obtain ⟨here', rest, v, hv⟩ := h
  refine ⟨.start, c :: rest, v, ?_⟩
  rw [readFrom, hs]
  exact (readFrom_eq_ok_of_unplaced rfl).mp hv

theorem completes_ended (stack : List Frame) (v : Value) :
    State.Completes limits ⟨stack, .ended v⟩ := by
  induction stack generalizing v with
  | nil => exact ⟨.start, [], v, rfl⟩
  | cons frame stack ih =>
    cases frame with
    | array before => exact State.completes_of_step ']' rfl (ih _)
    | object before name => exact State.completes_of_step closeBrace rfl (ih _)

theorem completes_value (stack : List Frame) : State.Completes limits ⟨stack, .value⟩ := by
  have hopen : State.step limits .start ⟨stack, .value⟩ quotationMark =
      .ok ⟨stack, .string .start .value [] .plain⟩ := rfl
  have hclose : State.step limits .start ⟨stack, .string .start .value [] .plain⟩ quotationMark =
      .ok ⟨stack, .ended (.string [])⟩ := rfl
  exact State.completes_of_step _ hopen (State.completes_of_step _ hclose (completes_ended _ _))

theorem completes_colon (stack : List Frame) (before : Fields) (name : Text) :
    State.Completes limits ⟨stack, .colon before name⟩ :=
  State.completes_of_step ':' rfl (completes_value (.object before name :: stack))

/-- A string ends at a quotation mark, unless an escape is open. -/
theorem completes_string (stack : List Frame) (start : Place) (role : Role) (read : Text) :
    State.Completes limits ⟨stack, .string start role read .plain⟩ := by
  have hstep : State.step limits .start ⟨stack, .string start role read .plain⟩ quotationMark =
      .ok ⟨stack, role.ended read.reverse⟩ := rfl
  refine State.completes_of_step _ hstep ?_
  cases role with
  | value => exact completes_ended stack _
  | name before => exact completes_colon stack before _

theorem completes_unit (stack : List Frame) (start : Place) (role : Role) (read : Text)
    (place : Place) : State.Completes limits ⟨stack, .string start role read (.unit place)⟩ := by
  have hstep : State.step limits .start ⟨stack, .string start role read (.unit place)⟩ '/' =
      .ok ⟨stack, .string start role (CodePoint.ofChar '/' :: read) .plain⟩ := rfl
  exact State.completes_of_step _ hstep (completes_string stack start role _)

theorem completes_digits (stack : List Frame) (start : Place) (role : Role) (read : Text)
    (place : Place) (joins : Bool) (d : Digits) :
    State.Completes limits ⟨stack, .string start role read (.digits place joins d)⟩ := by
  -- The induction is on the digits that are missing.
  induction hleft : 4 - d.count generalizing d with
  | zero =>
    have hstep : State.step limits .start ⟨stack, .string start role read (.digits place joins d)⟩
        '0' = .ok ⟨stack, .string start role
          (pushUnit read joins (CodePoint.ofNat (d.value * 16))) (.unit place)⟩ := by
      have hcount : ¬ d.count + 1 < 4 := by omega
      simp only [State.step, stringStep]
      exact if_neg hcount
    exact State.completes_of_step _ hstep (completes_unit stack start role _ place)
  | succ left ih =>
    by_cases hcount : d.count + 1 < 4
    · have hstep : State.step limits .start
          ⟨stack, .string start role read (.digits place joins d)⟩ '0' = .ok ⟨stack,
            .string start role read (.digits place joins ⟨d.value * 16, d.count + 1⟩)⟩ := by
        simp only [State.step, stringStep]
        exact if_pos hcount
      exact State.completes_of_step _ hstep (ih _ (by simp only; omega))
    · have hstep : State.step limits .start
          ⟨stack, .string start role read (.digits place joins d)⟩ '0' = .ok ⟨stack,
            .string start role (pushUnit read joins (CodePoint.ofNat (d.value * 16)))
              (.unit place)⟩ := by
        simp only [State.step, stringStep]
        exact if_neg hcount
      exact State.completes_of_step _ hstep (completes_unit stack start role _ place)

theorem completes_literal (stack : List Frame) (start : Place) {left : Text} (h : left ≠ [])
    (v : Value) : State.Completes limits ⟨stack, .literal start left v⟩ := by
  induction left with
  | nil => exact absurd rfl h
  | cons c left ih =>
    have hstep : State.step limits .start ⟨stack, .literal start (c :: left) v⟩ c =
        .ok ⟨stack, if left.isEmpty then .ended v else .literal start left v⟩ := by
      simp [State.step, literalStep]
    refine State.completes_of_step c hstep ?_
    cases left with
    | nil => exact completes_ended stack v
    | cons d left => exact ih (List.cons_ne_nil d left)

/-- A number ends behind a digit of its exponent, which makes it no whole one,
however many digits it has. -/
theorem completes_exponent (stack : List Frame) (start : Place) (n : Numeral) :
    State.Completes limits ⟨stack, .numeral start n .exponent⟩ := by
  have hdigit : State.step limits .start ⟨stack, .numeral start n .exponent⟩ '0' =
      .ok ⟨stack, .numeral start { n with exponent := n.exponent.push 0 } .exponent⟩ := rfl
  have hvalue : Numeral.value limits { n with exponent := n.exponent.push 0 } =
      .ok (.float (Numeral.decimal { n with exponent := n.exponent.push 0 }).nearest) :=
    if_neg Numeral.not_isWhole_of_exponent
  have hspace : State.step limits .start
      ⟨stack, .numeral start { n with exponent := n.exponent.push 0 } .exponent⟩ ' ' =
        .ok ⟨stack, .ended
          (.float (Numeral.decimal { n with exponent := n.exponent.push 0 }).nearest)⟩ := by
    change afterNumeral limits .start stack _ _ = _
    rw [afterNumeral, hvalue]
    rfl
  exact State.completes_of_step _ hdigit
    (State.completes_of_step _ hspace (completes_ended stack _))

theorem completes_numeral (stack : List Frame) (start : Place) (n : Numeral)
    (part : NumeralPart) : State.Completes limits ⟨stack, .numeral start n part⟩ := by
  have hletter : ∀ n place, State.Completes limits ⟨stack, .numeral start n (.letter place)⟩ :=
    fun n _ => State.completes_of_step '0' rfl (completes_exponent stack start _)
  have hfraction : ∀ n, State.Completes limits ⟨stack, .numeral start n .fraction⟩ :=
    fun n => State.completes_of_step 'e' rfl (hletter n .start)
  have hzero : ∀ n, State.Completes limits ⟨stack, .numeral start n .zero⟩ :=
    fun n => State.completes_of_step 'e' rfl (hletter n .start)
  cases part with
  | sign => exact State.completes_of_step '0' rfl (hzero _)
  | zero => exact hzero n
  | whole => exact State.completes_of_step 'e' rfl (hletter n .start)
  | point place => exact State.completes_of_step '0' rfl (hfraction _)
  | fraction => exact hfraction n
  | letter place => exact hletter n place
  | exponentSign place =>
    exact State.completes_of_step '0' rfl (completes_exponent stack start _)
  | exponent => exact completes_exponent stack start n

/-- Every state with something left of its literal can be completed, with the
containers closed in which it stands. -/
theorem State.Proper.completes {s : State} (h : s.Proper) : s.Completes limits := by
  obtain ⟨stack, phase⟩ := s
  cases phase with
  | value => exact completes_value stack
  | firstItem => exact State.completes_of_step ']' rfl (completes_ended stack _)
  | firstName =>
    exact State.completes_of_step closeBrace rfl (completes_ended stack _)
  | name before =>
    exact State.completes_of_step quotationMark rfl
      (completes_string stack .start (.name before) [])
  | colon before name => exact completes_colon stack before name
  | ended v => exact completes_ended stack v
  | literal start left v => exact completes_literal stack start (h start left v rfl).1 v
  | numeral start n part => exact completes_numeral stack start n part
  | string start role read part =>
    cases part with
    | plain => exact completes_string stack start role read
    | unit place => exact completes_unit stack start role read place
    | escape place joins =>
      have hstep : State.step limits .start
          ⟨stack, .string start role read (.escape place joins)⟩ backslash =
            .ok ⟨stack, .string start role (backslash :: read) .plain⟩ := rfl
      exact State.completes_of_step _ hstep (completes_string stack start role _)
    | digits place joins d => exact completes_digits stack start role read place joins d

/-! ## Beginnings of texts with a value -/

/-- The text is the beginning of one that has a value. -/
def Begins (p : Text) : Prop := ∃ rest v, parse (p ++ rest) = .ok v

theorem begins_of_run {p : Text} {s : State} (h : State.start.run .standard .start p = .ok s) :
    Begins p := by
  have hcompletes : s.Completes .standard :=
    (State.proper_of_run State.proper_start h).completes
  obtain ⟨here, rest, v, hv⟩ := hcompletes
  refine ⟨rest, v, read_eq_ok.mpr ?_⟩
  rw [readFrom_append, h]
  exact (readFrom_eq_ok_of_unplaced rfl).mp hv

theorem State.exists_run_of_prefix {here : Place} {s s' : State} {p q : Text}
    (h : s.run limits here p = .ok s') (hq : q <+: p) : ∃ s'', s.run limits here q = .ok s'' := by
  obtain ⟨rest, rfl⟩ := hq
  rw [run_append] at h
  cases hs : s.run limits here q with
  | error f =>
    rw [hs] at h
    cases h
  | ok s'' => exact ⟨s'', rfl⟩

/-- A fault is reported at the end of a good part of the text. -/
theorem exists_place_of_parse {t : Text} {complaint : Complaint} {place : Place}
    (h : parse t = .error (.malformed complaint place)) :
    ∃ q, q <+: t ∧ place = Place.after q ∧ Begins q := by
  unfold parse read at h
  split at h
  · cases h
    have hrun : State.start.run .standard .start [] = .ok .start := rfl
    exact ⟨[], List.nil_prefix, rfl, begins_of_run hrun⟩
  · obtain ⟨p, s, hp, hend⟩ := readFrom_eq_error h
    have hknown : s.phase.Knows (Place.after p) place ∧ p <+: t := by
      rcases hend with ⟨rfl, hf⟩ | ⟨c, rest, rfl, hf⟩
      · exact ⟨State.knows_of_finish hf, List.prefix_rfl⟩
      · have hstep := State.known_step .standard (Place.after p) s c
        rw [Place.after, hf] at hstep
        exact ⟨hstep, List.prefix_append p (c :: rest)⟩
    obtain ⟨hknows, hpt⟩ := hknown
    rcases hknows with rfl | hmem
    · exact ⟨p, hpt, rfl, begins_of_run hp⟩
    · obtain ⟨q, hq, rfl⟩ := State.exists_of_mem_places hp place hmem
      obtain ⟨s', hs'⟩ := State.exists_run_of_prefix hp hq
      exact ⟨q, hq.trans hpt, rfl, begins_of_run hs'⟩

/-- A fault is reported at a place in the text or at its end, with the line and
the column of that place, and never past the fault: the text in front of the
place is the beginning of a text that has a value. -/
theorem a_fault_is_never_reported_late {t : Text} {complaint : Complaint} {place : Place}
    (h : parse t = .error (.malformed complaint place)) :
    place.offset ≤ t.length ∧
      place.line = 1 + (t.take place.offset).count lineFeed ∧
      place.column = 1 + ((t.take place.offset).reverse.takeWhile (· ≠ lineFeed)).length ∧
      Begins (t.take place.offset) := by
  obtain ⟨q, hq, rfl, hbegins⟩ := exists_place_of_parse h
  have htake : t.take (Place.after q).offset = q := by
    rw [Place.after_offset]
    exact (List.prefix_iff_eq_take.mp hq).symm
  rw [htake]
  refine ⟨?_, Place.after_line q, Place.after_column q, hbegins⟩
  rw [Place.after_offset]
  exact hq.length_le

/-- A string in which the second half of a pair is broken off. -/
def brokenPair : Text := Text.ofString "[1,\n\"a\\ud83d\\u12\"]"

theorem a_fault_is_never_reported_late_pair :
    parse brokenPair = .error (.malformed .badUnit ⟨13, 2, 10⟩) ∧
      Begins (Text.ofString "[1,\n\"a\\ud83d\\") := by
  have h : parse brokenPair = .error (.malformed .badUnit ⟨13, 2, 10⟩) := rfl
  exact ⟨h, (a_fault_is_never_reported_late h).2.2.2⟩

end Json

end Lectern
