-- How the lines of an input end does not matter. A carriage return stands
-- between the parts of a value, where it is white space as a line feed is, or
-- at a place where either is the same fault. So a text and the text with its
-- line ends unified are read in step.
import Lectern.Proofs.Encoding
import Lectern.Proofs.OpenCalls
import Lectern.Proofs.Places
import Lectern.Proofs.States

namespace Lectern

open CodePoint (carriageReturn lineFeed)

namespace Text

/-! ## Unified line ends -/

/-- A text with its line ends unified, when the code point in front of it was a
carriage return or was not. -/
def unifyFrom (returned : Bool) : Text → Text
  | [] => []
  | c :: t =>
    if c = carriageReturn then lineFeed :: unifyFrom true t
    else if c = lineFeed ∧ returned then unifyFrom false t
    else c :: unifyFrom false t

theorem foldl_unifyStep (written : Text) (returned : Bool) (t : Text) :
    (t.foldl unifyStep (written, returned)).1.reverse =
      written.reverse ++ unifyFrom returned t := by
  induction t generalizing written returned with
  | nil => simp [unifyFrom]
  | cons c t ih =>
    rw [List.foldl_cons, unifyStep, unifyFrom]
    split
    · simp [ih]
    · split <;> simp [ih]

theorem unifyLineEnds_eq (t : Text) : t.unifyLineEnds = unifyFrom false t := by
  rw [unifyLineEnds, foldl_unifyStep]
  rfl

theorem head?_unifyLineEnds {t : Text} {c : CodePoint} (hr : c ≠ carriageReturn)
    (hl : c ≠ lineFeed) : t.unifyLineEnds.head? = some c ↔ t.head? = some c := by
  rw [unifyLineEnds_eq]
  cases t with
  | nil => rfl
  | cons d t =>
    rw [unifyFrom]
    by_cases hd : d = carriageReturn
    · simp [hd, hr.symm, hl.symm]
    · simp [hd]

end Text

namespace Json

variable {limits : Limits}

/-! ## Line ends and the reader -/

/-- The reader does the same at either line end. -/
theorem State.Proper.step_carriageReturn {s : State} (h : s.Proper) (p : Place) :
    s.step limits p carriageReturn = s.step limits p lineFeed := by
  obtain ⟨stack, phase⟩ := s
  cases phase with
  | literal start left v =>
    simp only [State.step, literalStep]
    cases left with
    | nil => rfl
    | cons d more =>
      have hd : isSpace d = false := (h start _ v rfl).2 d List.mem_cons_self
      have hr : carriageReturn ≠ d := by
        rintro rfl
        cases hd
      have hl : lineFeed ≠ d := by
        rintro rfl
        cases hd
      simp only [if_neg hr, if_neg hl]
  | numeral start n part => cases part <;> rfl
  | string start role read part => cases part <;> rfl
  | _ => rfl

theorem afterValue_ignores {p q : Place} {stack : List Frame} {v : Value} {s : State}
    (h : afterValue p stack v carriageReturn = .ok s) : s.step limits q lineFeed = .ok s := by
  cases h
  rfl

theorem afterNumeral_ignores {p q : Place} {stack : List Frame} {n : Numeral} {s : State}
    (h : afterNumeral limits p stack n carriageReturn = .ok s) :
    s.step limits q lineFeed = .ok s := by
  unfold afterNumeral at h
  cases hv : n.value limits with
  | error f =>
    rw [hv] at h
    cases h
  | ok v =>
    rw [hv] at h
    exact afterValue_ignores h

/-- Behind a carriage return that is no fault, a line feed changes nothing. -/
theorem State.Proper.step_ignores {s s' : State} (h : s.Proper) {p : Place}
    (hs : s.step limits p carriageReturn = .ok s') (q : Place) :
    s'.step limits q lineFeed = .ok s' := by
  obtain ⟨stack, phase⟩ := s
  cases phase with
  | literal start left v =>
    simp only [State.step, literalStep] at hs
    have hspace := (h start left v rfl).2
    have hreturn : isSpace carriageReturn = true := rfl
    grind
  | numeral start n part =>
    cases part with
    | zero | whole | fraction | exponent => exact afterNumeral_ignores hs
    | sign | point | letter | exponentSign => cases hs
  | string start role read part => cases part <;> cases hs
  | ended v => exact afterValue_ignores hs
  | _ =>
    cases hs
    rfl

/-- Two readers in step, of which one reads a text and the other the text with
its line ends unified. -/
theorem readFrom_unifyFrom {s s' : State} (hs : s.unplaced = s'.unplaced) (h : s'.Proper)
    (p q : Place) {returned : Bool}
    (hreturned : returned → ∀ q, s'.step limits q lineFeed = .ok s') (t : Text) :
    (readFrom limits p s (Text.unifyFrom returned t)).mapError Fault.unplaced =
      (readFrom limits q s' t).mapError Fault.unplaced := by
  induction t generalizing s s' p q returned with
  | nil => exact State.finish_congr hs p q
  | cons c t ih =>
    rw [Text.unifyFrom]
    split
    · -- A line feed is written for a carriage return.
      subst c
      have hstep : unplaced (s.step limits p lineFeed) =
          unplaced (s'.step limits q carriageReturn) := by
        rw [h.step_carriageReturn]
        exact State.step_congr limits hs p q lineFeed
      rw [readFrom, readFrom]
      rcases exists_of_unplaced_eq hstep with ⟨s₁, s₁', h₁, h₁', heq⟩ | ⟨f, f', hf, hf', heq⟩
      · rw [h₁, h₁']
        exact ih heq (h.step h₁') _ _ fun _ => h.step_ignores h₁'
      · rw [hf, hf']
        exact congrArg Except.error heq
    · split
      · -- Nothing is written for a line feed behind a carriage return.
        rename_i hc
        obtain ⟨rfl, hr⟩ := hc
        rw [readFrom, hreturned hr]
        exact ih hs h _ _ (absurd · Bool.false_ne_true)
      · rw [readFrom, readFrom]
        rcases exists_of_unplaced_eq (State.step_congr limits hs p q c) with
          ⟨s₁, s₁', h₁, h₁', heq⟩ | ⟨f, f', hf, hf', heq⟩
        · rw [h₁, h₁']
          exact ih heq (h.step h₁') _ _ (absurd · Bool.false_ne_true)
        · rw [hf, hf']
          exact congrArg Except.error heq

/-- A text and the text with its line ends unified are read alike, but for the
place of a fault. -/
theorem read_unifyLineEnds (limits : Limits) (t : Text) :
    (read limits t.unifyLineEnds).mapError Fault.unplaced =
      (read limits t).mapError Fault.unplaced := by
  have hmark : t.unifyLineEnds.head? = some byteOrderMark ↔ t.head? = some byteOrderMark :=
    Text.head?_unifyLineEnds (by decide) (by decide)
  unfold read
  simp only [hmark]
  split
  · rfl
  · rw [Text.unifyLineEnds_eq]
    exact readFrom_unifyFrom rfl State.proper_start .start .start (absurd · Bool.false_ne_true) t

/-! ## Faults of one kind -/

/-- Two faults are of one kind when they are the same, or when they are one
complaint at two places, so that their messages agree up to the place. -/
inductive Fault.SameKind : Fault → Fault → Prop
  | same (f : Fault) : SameKind f f
  | moved (complaint : Complaint) (p q : Place) :
    SameKind (.malformed complaint p) (.malformed complaint q)

theorem Fault.sameKind_of_unplaced {f g : Fault} (h : f.unplaced = g.unplaced) :
    f.SameKind g := by
  cases f with
  | malformed complaint p =>
    cases g with
    | malformed complaint' q =>
      obtain rfl : complaint = complaint' := (Fault.malformed.inj h).1
      exact .moved complaint p q
    | _ => cases h
  | _ =>
    cases g <;> cases h
    exact .same _

theorem sameKind_of_parse {t : Text} {f g : Fault} (hf : parse t.unifyLineEnds = .error f)
    (hg : parse t = .error g) : f.SameKind g := by
  have h := read_unifyLineEnds .standard t
  unfold parse at hf hg
  rw [hf, hg] at h
  exact Fault.sameKind_of_unplaced (Except.error.inj h)

theorem parse_unifyLineEnds_eq_ok {t : Text} {v : Value} :
    parse t.unifyLineEnds = .ok v ↔ parse t = .ok v := by
  have h := read_unifyLineEnds .standard t
  unfold parse
  rw [← mapError_unplaced_eq_ok, h, mapError_unplaced_eq_ok]

end Json

/-! ## The law -/

namespace Cli

theorem ofText_unifyLineEnds_eq_ok {config : Config} {t : Text} {c : Conversion} :
    Conversion.ofText config t.unifyLineEnds = .ok c ↔ Conversion.ofText config t = .ok c := by
  unfold Conversion.ofText
  have h := fun v => Json.parse_unifyLineEnds_eq_ok (t := t) (v := v)
  cases hu : Json.parse t.unifyLineEnds with
  | ok v =>
    rw [(h v).mp hu]
  | error f =>
    cases ht : Json.parse t with
    | ok v =>
      rw [(h v).mpr ht] at hu
      cases hu
    | error g => simp

theorem convertInput_eq_ok_of_decode {o : Options} {bytes : List UInt8} {t : Text}
    (h : Utf8.decode bytes = .ok t) {c : Conversion} :
    convertInput o (.ok bytes) = .ok c ↔ Conversion.ofText o.config t = .ok c := by
  rw [← ofText_unifyLineEnds_eq_ok]
  simp only [convertInput, inputText, h, Except.map]
  cases Conversion.ofText o.config t.unifyLineEnds <;> simp

/-- A text and the text with its line ends unified have the same value, if they
have one, and otherwise a fault of the same kind. So their conversions have the
same document, slides and output, and the command line, which unifies the line
ends of its input, delivers what the text itself is converted to: the output
in bytes goes to the stream or to the file, and the run ends well. -/
theorem line_ends_do_not_matter :
    (∀ t : Text,
      (∀ v, Json.parse t.unifyLineEnds = .ok v ↔ Json.parse t = .ok v) ∧
      (∀ f g, Json.parse t.unifyLineEnds = .error f → Json.parse t = .error g →
        f.SameKind g) ∧
      ∀ config c, Conversion.ofText config t.unifyLineEnds = .ok c ↔
        Conversion.ofText config t = .ok c) ∧
    ∀ (o : Options) (bytes : List UInt8) (t : Text), Utf8.decode bytes = .ok t →
      (∀ c, convertInput o (.ok bytes) = .ok c ↔ Conversion.ofText o.config t = .ok c) ∧
      ∀ files c, Conversion.ofText o.config t = .ok c →
        runOn o (.ok bytes) files = deliver o files (inputEvents o (.ok bytes)) c ∧
        ∀ written, Utf8.encode c.output = .ok written →
          (o.output = standardStream → (runOn o (.ok bytes) files).output = c.output ∧
            (runOn o (.ok bytes) files).files = files ∧
            (runOn o (.ok bytes) files).ending = .exit 0) ∧
          ∀ place, o.output ≠ standardStream → files.target (Path.ofText o.output) = .ok place →
            (runOn o (.ok bytes) files).output = [] ∧
            (runOn o (.ok bytes) files).files = files.put place written ∧
            (runOn o (.ok bytes) files).ending = .exit 0 := by
  constructor
  · intro t
    exact ⟨fun v => Json.parse_unifyLineEnds_eq_ok, fun f g => Json.sameKind_of_parse,
      fun config c => ofText_unifyLineEnds_eq_ok⟩
  · intro o bytes t ht
    refine ⟨fun c => convertInput_eq_ok_of_decode ht, ?_⟩
    intro files c hc
    have hrun : runOn o (.ok bytes) files = deliver o files (inputEvents o (.ok bytes)) c := by
      rw [runOn, (convertInput_eq_ok_of_decode ht).mpr hc]
    refine ⟨hrun, fun written hwritten => ⟨fun ho => ?_, fun place ho htarget => ?_⟩⟩
    · rw [hrun, deliver_toStream ho hwritten]
      exact ⟨rfl, rfl, rfl⟩
    · rw [hrun, deliver_toFile ho htarget hwritten]
      exact ⟨rfl, rfl, rfl⟩

/-- The text of a document with a line end of either length. -/
def twoLineEnds : Text := Text.ofString "[\x7b\x7d,\r\n[\x7b\"t\":\"Space\"\x7d]\r]"

/-- The text in bytes. -/
def twoLineEndsBytes : List UInt8 := twoLineEnds.map fun c => UInt8.ofNat c.val

/-- The slides of the document. -/
def spaceSlides : List Slide := [[.space]]

/-- A system without files. -/
def noFiles : Files := ⟨[], [], [], [], []⟩

/-- A text that is no JSON from its second line on. -/
def badLine : Text := Text.ofString "\r\n?"

theorem line_ends_do_not_matter_document :
    (∃ c, c.slides = spaceSlides ∧
      Conversion.ofText Config.standard twoLineEnds.unifyLineEnds = .ok c ∧
      (runOn Options.standard (.ok twoLineEndsBytes) noFiles).output = c.output ∧
      (runOn Options.standard (.ok twoLineEndsBytes) noFiles).ending = .exit 0) ∧
      ∃ f g : Json.Fault, f.SameKind g ∧ f ≠ g ∧ Json.parse badLine.unifyLineEnds = .error f ∧
        Json.parse badLine = .error g := by
  have hdecode : Utf8.decode twoLineEndsBytes = .ok twoLineEnds := rfl
  have hc : Conversion.ofText Config.standard twoLineEnds =
      .ok (Conversion.plain Config.standard ⟨[], spaceSlides.flatten⟩) :=
    Conversion.ofText_of_read rfl rfl (by decide) (by decide)
  obtain ⟨hread, hrun⟩ := line_ends_do_not_matter
  have hf : Json.parse badLine.unifyLineEnds = .error (.malformed .noValue ⟨1, 2, 1⟩) := rfl
  have hg : Json.parse badLine = .error (.malformed .noValue ⟨2, 2, 1⟩) := rfl
  have hclean : ∀ p ∈ Config.standard.deck spaceSlides, p.isSurrogate = false :=
    Config.isSurrogate_deck_standard (by decide +kernel)
  obtain ⟨written, hwritten, -⟩ := Utf8.exists_encode_eq_ok hclean
  refine ⟨⟨_, rfl, ((hread twoLineEnds).2.2 _ _).mpr hc, ?_⟩, ?_⟩
  · have hends := ((hrun Options.standard _ _ hdecode).2 noFiles _ hc).2 written hwritten
    exact ⟨(hends.1 rfl).1, (hends.1 rfl).2.2⟩
  · exact ⟨_, _, (hread badLine).2.1 _ _ hf hg, by decide, hf, hg⟩

end Cli

end Lectern
