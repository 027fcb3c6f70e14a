-- The errors that a conversion reports as its own. Whatever is wrong with a
-- text is one of them, with two exceptions, which nothing between them and
-- the end of the program looks at: a whole number with too many digits, and
-- nodes that are read and stand too deep to be rendered.
import Lectern.Proofs.LongNumbers
import Lectern.Proofs.OpenCalls

namespace Lectern

/-! ## Errors of a conversion -/

/-- The errors that a conversion reports as its own, with what each of them
carries. -/
inductive Refusal
  | malformedInput
  | unknownVariant (tag : Text)
  | malformedNode (tag expected : Text)
  | unsupportedNode (tag : Text)
deriving DecidableEq

/-- The error that a text without a value is reported as, if it is. -/
def Json.Fault.refusal? : Json.Fault → Option Refusal
  | .malformed _ _ | .tooDeep => some .malformedInput
  | .longNumber _ => none

/-- The error that a value which is no record is reported as. -/
def Node.Fault.refusal (f : Node.Fault) : Refusal :=
  match f with
  | .tooDeep => .malformedInput
  | .unknownTag _ => .unknownVariant f.subject
  | .notRecord _ | .misshapen _ => .malformedNode f.subject (f.expected?.getD [])

/-- The error that a value which is no payload is reported as. -/
def Document.Fault.refusal : Document.Fault → Refusal
  | .notPair | .metadataNotObject | .blocksNotArray => .malformedInput
  | .node fault => fault.refusal

/-- The error that a failed conversion is reported as, if it is. -/
def Conversion.Fault.refusal? : Conversion.Fault → Option Refusal
  | .json fault => fault.refusal?
  | .document fault => some fault.refusal
  | .rawBlock => some (.unsupportedNode Tag.rawBlock.name)
  | .overflow => none

theorem Json.Fault.refusal?_of_ne {f : Json.Fault} (h : ∀ n, f ≠ .longNumber n) :
    f.refusal? = some .malformedInput := by
  cases f with
  | malformed complaint place => rfl
  | tooDeep => rfl
  | longNumber n => exact absurd rfl (h n)

theorem Conversion.Fault.refusal?_eq_none {f : Conversion.Fault} :
    f.refusal? = none ↔ (∃ n, f = .json (.longNumber n)) ∨ f = .overflow := by
  constructor
  · intro h
    cases f with
    | json fault =>
      cases fault with
      | longNumber n => exact .inl ⟨n, rfl⟩
      | malformed complaint place => cases h
      | tooDeep => cases h
    | document fault => cases h
    | rawBlock => cases h
    | overflow => exact .inr rfl
  · rintro (⟨n, rfl⟩ | rfl) <;> rfl

/-! ## What is reported and what is not -/

namespace Conversion

open Json (HoldsLongNumber Limits)

/-- Reading a text gives a value or an error that is reported. -/
def ReadsOrRefuses (t : Text) : Prop :=
  (∃ v, Json.parse t = .ok v) ∨
    ∃ f, Json.parse t = .error f ∧ f.refusal? = some .malformedInput

/-- Converting a text gives a deck or an error that is reported. -/
def ConvertsOrRefuses (config : Config) (t : Text) : Prop :=
  (∃ c, ofText config t = .ok c) ∨
    ∃ f r, ofText config t = .error f ∧ f.refusal? = some r

theorem parse_eq_longNumber {t : Text} {n : Nat} :
    Json.parse t = .error (.longNumber n) ↔ HoldsLongNumber .standard n t :=
  Json.read_eq_longNumber (by decide)

/-- The document of a text is read and not refused, and rendering does not get
through it. -/
def Overflows (config : Config) (t : Text) : Prop :=
  ∃ payload d, Json.parse t = .ok payload ∧ Document.ofPayload payload = .ok d ∧
    ¬ (config.rawBlocks = .fail ∧ holdsRawBlock d.blocks) ∧ ¬ d.Renders

theorem ofText_eq_longNumber (config : Config) {t : Text} {n : Nat} :
    ofText config t = .error (.json (.longNumber n)) ↔ HoldsLongNumber .standard n t := by
  rw [← parse_eq_longNumber]
  unfold ofText
  cases Json.parse t with
  | error f => simp
  | ok payload =>
    -- Behind the reader no fault is one of the text.
    cases h : Document.ofPayload payload with
    | error fault => simp [ofPayload_of_error h]
    | ok d =>
      simp only [ofPayload_of_ok h, reduceCtorEq, iff_false]
      split_ifs <;> exact nofun

theorem ofText_eq_overflow (config : Config) {t : Text} :
    ofText config t = .error .overflow ↔ Overflows config t := by
  unfold ofText Overflows
  cases Json.parse t with
  | error f => simp
  | ok payload =>
    cases h : Document.ofPayload payload with
    | error fault => simp [ofPayload_of_error h, h]
    | ok d =>
      simp only [ofPayload_of_ok h, h, Except.ok.injEq, exists_and_left, exists_eq_left']
      split_ifs <;> simp_all

theorem readsOrRefuses_iff {t : Text} :
    ReadsOrRefuses t ↔ ∀ n, ¬ HoldsLongNumber .standard n t := by
  simp only [← parse_eq_longNumber]
  unfold ReadsOrRefuses
  cases Json.parse t with
  | ok v => simp
  | error f =>
    constructor
    · rintro (⟨v, hv⟩ | ⟨g, hg, hrefusal⟩) n hn
      · cases hv
      · cases hg
        cases hn
        cases hrefusal
    · intro h
      exact .inr ⟨f, rfl, Json.Fault.refusal?_of_ne fun n hn => h n (by rw [hn])⟩

theorem convertsOrRefuses_iff {config : Config} {t : Text} :
    ConvertsOrRefuses config t ↔
      (∀ n, ¬ HoldsLongNumber .standard n t) ∧ ¬ Overflows config t := by
  simp only [← ofText_eq_longNumber config, ← ofText_eq_overflow config]
  unfold ConvertsOrRefuses
  cases ofText config t with
  | ok c => simp
  | error f =>
    constructor
    · rintro (⟨c, hc⟩ | ⟨g, r, hg, hrefusal⟩)
      · cases hc
      · cases hg
        refine ⟨fun n hn => ?_, fun hover => ?_⟩
        · cases hn
          cases hrefusal
        · cases hover
          cases hrefusal
    · rintro ⟨hlong, hover⟩
      have hsome : f.refusal? ≠ none := by
        intro hnone
        rcases Fault.refusal?_eq_none.mp hnone with ⟨n, rfl⟩ | rfl
        · exact hlong n rfl
        · exact hover rfl
      obtain ⟨r, hr⟩ := Option.ne_none_iff_exists'.mp hsome
      exact .inr ⟨f, r, rfl, hr⟩

/-- Reading and converting report every error of their own, unless a whole
number with too many digits is met or the document is too deep to be rendered.
Then they break off, with that number or without. -/
theorem every_error_is_reported_unless_the_conversion_breaks_off (config : Config) (t : Text) :
    (ConvertsOrRefuses config t ↔
      (∀ n, ¬ HoldsLongNumber .standard n t) ∧ ¬ Overflows config t) ∧
      (ReadsOrRefuses t ↔ ∀ n, ¬ HoldsLongNumber .standard n t) ∧
      (∀ n, HoldsLongNumber .standard n t ↔
        ofText config t = .error (.json (.longNumber n))) ∧
      (Overflows config t ↔ ofText config t = .error .overflow) :=
  ⟨convertsOrRefuses_iff, readsOrRefuses_iff, fun _ => (ofText_eq_longNumber config).symm,
    (ofText_eq_overflow config).symm⟩

theorem holdsLongNumber_replicate {n : Nat} (h : Limits.standard.digits < n) :
    HoldsLongNumber .standard n (List.replicate n (CodePoint.ofChar '1')) := by
  have hdigits : ∀ c ∈ List.replicate n (CodePoint.ofChar '1'), Json.IsDigit c := by
    intro c hc
    rw [List.eq_of_mem_replicate hc]
    exact ⟨1, rfl⟩
  have hhead : (List.replicate n (CodePoint.ofChar '1')).head? ≠ some (CodePoint.ofChar '0') := by
    intro hhead
    have hmem := List.mem_of_mem_head? (Option.mem_def.mpr hhead)
    exact absurd (List.eq_of_mem_replicate hmem) (by decide)
  have hbefore : Json.State.start.run .standard .start [] = .ok .start := rfl
  have hrest : ¬ Json.GoesOn [] := nofun
  have htext := HoldsLongNumber.mk hbefore (.inl rfl) (.inl rfl) hdigits hhead
    (List.length_replicate ..) h hrest
  rwa [List.append_nil] at htext

/-- The text of 4301 digits is neither converted nor refused. -/
theorem a_long_number_is_not_reported :
    ¬ ∀ config t, ConvertsOrRefuses config t ∧ ReadsOrRefuses t := by
  intro h
  have hlong := holdsLongNumber_replicate (n := 4301) (by decide)
  exact (convertsOrRefuses_iff.mp (h .standard _).1).1 4301 hlong

end Conversion

end Lectern
