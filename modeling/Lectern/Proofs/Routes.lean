-- The routes of a run. The input comes from the stream or from a file, and
-- the output goes to the stream or to a file, which may be the input file.
-- None of this has a say in what the run converts and whether that succeeds.
-- A run that neither succeeds nor fails breaks off, on all routes alike.
import Lectern.Proofs.DeepTexts
import Lectern.Proofs.LineEnds
import Lectern.Proofs.Refusals

namespace Lectern.Cli

open Json (HoldsLongNumber)

/-! ## What a run converts -/

/-- Bytes have this conversion under a policy for raw blocks. -/
def Converts (policy : RawPolicy) (bytes : List UInt8) (c : Conversion) : Prop :=
  ∃ t, inputText bytes = .ok t ∧
    Conversion.ofText { Config.standard with rawBlocks := policy } t = .ok c

/-- The document of these bytes is read and not refused under a policy, and
rendering does not get through it. -/
def Overflows (policy : RawPolicy) (bytes : List UInt8) : Prop :=
  ∃ t, inputText bytes = .ok t ∧
    Conversion.Overflows { Config.standard with rawBlocks := policy } t

/-- No number in these bytes has too many digits. -/
def HasShortNumbers (bytes : List UInt8) : Prop :=
  ∀ t, inputText bytes = .ok t → ∀ n, ¬ HoldsLongNumber .standard n t

section

variable {o : Options} {bytes : List UInt8}

/-- Of the options, only the policy has a say in the conversion. -/
theorem convertInput_eq_ok {c : Conversion} :
    convertInput o (.ok bytes) = .ok c ↔ Converts o.rawBlocks bytes c := by
  unfold Converts
  change _ ↔ ∃ t, _ ∧ Conversion.ofText o.config t = .ok c
  cases hin : inputText bytes with
  | error fault => simp [convertInput, hin]
  | ok t => cases ht : Conversion.ofText o.config t <;> simp [convertInput, hin, ht]

theorem convertInput_eq_conversion {f : Conversion.Fault} :
    convertInput o (.ok bytes) = .error (.conversion f) ↔
      ∃ t, inputText bytes = .ok t ∧ Conversion.ofText o.config t = .error f := by
  cases hin : inputText bytes with
  | error fault => simp [convertInput, hin]
  | ok t => cases ht : Conversion.ofText o.config t <;> simp [convertInput, hin, ht]

theorem convertInput_eq_overflow :
    convertInput o (.ok bytes) = .error (.conversion .overflow) ↔ Overflows o.rawBlocks bytes := by
  simp only [convertInput_eq_conversion, Conversion.ofText_eq_overflow]
  rfl

theorem convertInput_ne_longNumber (short : HasShortNumbers bytes) (n : Nat) :
    convertInput o (.ok bytes) ≠ .error (.conversion (.json (.longNumber n))) := by
  intro h
  obtain ⟨t, hin, ht⟩ := convertInput_eq_conversion.mp h
  exact short t hin n ((Conversion.ofText_eq_longNumber o.config).mp ht)

/-- Bytes without long numbers have a conversion, or they overflow, or there is
a failure that is reported. -/
theorem convertInput_cases (short : HasShortNumbers bytes) :
    (∃ c, Converts o.rawBlocks bytes c) ∨ Overflows o.rawBlocks bytes ∨
      ∃ failure, convertInput o (.ok bytes) = .error failure ∧ failure.uncaught? = none := by
  cases h : convertInput o (.ok bytes) with
  | ok c => exact .inl ⟨c, convertInput_eq_ok.mp h⟩
  | error failure =>
    cases failure with
    | unreadable fault =>
      -- Bytes that are there are not the ones that cannot be read.
      unfold convertInput at h
      split at h
      · cases ‹Except.ok _ = Except.error _›
      · split at h
        · cases h
        · split at h <;> cases h
    | notUtf8 fault => exact .inr (.inr ⟨_, rfl, rfl⟩)
    | conversion fault =>
      cases fault with
      | overflow => exact .inr (.inl (convertInput_eq_overflow.mp h))
      | json fault =>
        cases fault with
        | longNumber n => exact absurd h (convertInput_ne_longNumber short n)
        | malformed | tooDeep => exact .inr (.inr ⟨_, rfl, rfl⟩)
      | document | rawBlock => exact .inr (.inr ⟨_, rfl, rfl⟩)

theorem not_overflows_of_converts {policy : RawPolicy} {c : Conversion}
    (h : Converts policy bytes c) : ¬ Overflows policy bytes := by
  rintro ⟨t, hin, hover⟩
  obtain ⟨t', hin', hc⟩ := h
  cases hin.symm.trans hin'
  rw [(Conversion.ofText_eq_overflow _).mpr hover] at hc
  cases hc

end

/-! ## What a run leaves behind -/

/-- The run says that it has failed, and has written nothing. -/
structure Outcome.Refuses (r : Outcome) (files : Files) : Prop where
  ending : r.ending = .exit 1
  output : r.output = []
  kept : r.files = files

/-- The run breaks off while it renders, and has written nothing. -/
structure Outcome.BreaksOff (r : Outcome) (files : Files) : Prop where
  ending : r.ending = .uncaught .overflow
  output : r.output = []
  kept : r.files = files

/-- The run has written a text where the options say, and nothing anywhere
else. -/
inductive Outcome.Delivers (r : Outcome) (o : Options) (files : Files) (t : Text) : Prop
  | toStream (route : o.output = standardStream) (output : r.output = t) (kept : r.files = files)
  | toFile {place : Location} {bytes : List UInt8} (route : o.output ≠ standardStream)
    (target : files.target (Path.ofText o.output) = .ok place) (output : r.output = [])
    (written : r.files = files.put place bytes) (encoded : Utf8.encode t = .ok bytes)
    (readable : Utf8.decode bytes = .ok t)
    (kept : ∀ other ≠ place, r.files.bytesAt? other = files.bytesAt? other)

/-- There is a place where the options want the output. -/
def Options.Writable (o : Options) (files : Files) : Prop :=
  o.output = standardStream ∨ ∃ place, files.target (Path.ofText o.output) = .ok place

section

variable {o : Options} {files : Files}

/-- A file that can be read can be written at its place, unless it is
protected. -/
theorem Files.exists_target_eq_ok {path : Path} {bytes : List UInt8}
    (h : files.read path = .ok bytes) :
    ∃ place, files.bytesAt? place = some bytes ∧
      (place ∉ files.unwritable → files.target path = .ok place) := by
  obtain ⟨hpath, place, hfind, -⟩ := read_eq_ok.mp h
  refine ⟨place, bytesAt?_of_find hfind, fun hplace => ?_⟩
  simp only [target, hpath, hfind, if_neg hplace]

/-- The output can go where the input comes from. -/
theorem Options.writable_of_same {stdin bytes : List UInt8} (same : o.output = o.input)
    (h : inputOf o stdin files = .ok bytes) : o.output = standardStream ∨
      ∃ place, files.bytesAt? place = some bytes ∧
        (place ∉ files.unwritable → files.target (Path.ofText o.output) = .ok place) := by
  unfold inputOf at h
  rw [same]
  by_cases hi : o.input = standardStream
  · exact .inl hi
  · rw [if_neg hi] at h
    exact .inr (Files.exists_target_eq_ok h)

theorem runOn_refuses {input : Except OpenFault (List UInt8)} {failure : Failure}
    (h : convertInput o input = .error failure) (reported : failure.uncaught? = none) :
    (runOn o input files).Refuses files := by
  simp only [runOn, h, reported]
  exact ⟨rfl, rfl, rfl⟩

/-- An output without surrogates comes to its place whole. -/
theorem deliver_delivers {events : List Event} {c : Conversion}
    (hw : o.Writable files) (hs : ∀ p ∈ c.output, p.isSurrogate = false) :
    (deliver o files events c).ending = .exit 0 ∧
      (deliver o files events c).Delivers o files c.output := by
  obtain ⟨bytes, hencode, hdecode⟩ := Utf8.exists_encode_eq_ok hs
  by_cases ho : o.output = standardStream
  · rw [deliver_toStream ho hencode]
    exact ⟨rfl, .toStream ho rfl rfl⟩
  · obtain ⟨place, ht⟩ := hw.resolve_left ho
    rw [deliver_toFile ho ht hencode]
    exact ⟨rfl, .toFile ho ht rfl rfl hencode hdecode
      fun other hother => Files.bytesAt?_put_other files bytes hother⟩

/-- What a run on bytes comes to is settled by the bytes and the policy. -/
theorem runOn_ok {bytes : List UInt8} (short : HasShortNumbers bytes)
    (writable : ∀ c, Converts o.rawBlocks bytes c → ∀ p ∈ c.output, p.isSurrogate = false)
    (hw : o.Writable files) :
    (∀ c, Converts o.rawBlocks bytes c → (runOn o (.ok bytes) files).ending = .exit 0 ∧
      (runOn o (.ok bytes) files).Delivers o files c.output) ∧
    (Overflows o.rawBlocks bytes → (runOn o (.ok bytes) files).BreaksOff files) ∧
    ((¬ ∃ c, Converts o.rawBlocks bytes c) → ¬ Overflows o.rawBlocks bytes →
      (runOn o (.ok bytes) files).Refuses files) := by
  refine ⟨?_, ?_, ?_⟩
  · intro c hc
    simp only [runOn, convertInput_eq_ok.mpr hc]
    exact deliver_delivers hw (writable c hc)
  · intro hover
    simp only [runOn, convertInput_eq_overflow.mpr hover]
    exact ⟨rfl, rfl, rfl⟩
  · intro hnone hover
    obtain ⟨failure, hfailure, reported⟩ :=
      ((convertInput_cases short).resolve_left hnone).resolve_left hover
    exact runOn_refuses hfailure reported

end

/-! ## Every route has a command line -/

/-- The arguments that ask for these options. -/
def Options.arguments (o : Options) : List Text :=
  (Text.ofString "--output=" ++ o.output) :: (Text.ofString "--raw-block=" ++ o.rawBlocks.name) ::
    ((if o.verbose then [Text.ofString "--verbose"] else []) ++ [twoDashes, o.input])

theorem classify_output (t : Text) :
    classify (Text.ofString "--output=" ++ t) = .ok (.option .output false (some ⟨true, t⟩)) := rfl

theorem classify_rawBlocks (policy : RawPolicy) :
    classify (Text.ofString "--raw-block=" ++ policy.name) =
      .ok (.option .rawBlocks false (some ⟨true, policy.name⟩)) := by
  cases policy <;> rfl

theorem classify_verbose :
    classify (Text.ofString "--verbose") = .ok (.option .verbose false none) := rfl

theorem words_cons {t : Text} {rest : List Text} {w : Word} {ws : List Word}
    (ht : classify t = .ok w) (hrest : words rest = .ok ws) :
    words (t :: rest) = .ok (w :: ws) := by
  have hne : t ≠ twoDashes := by
    intro h
    rw [h] at ht
    cases ht
  rw [words, if_neg hne, ht, hrest]
  rfl

theorem chain_of_takesArgument {flag : Flag} (h : flag.takesArgument = true)
    (short byEquals : Bool) (t : Text) :
    chain flag short byEquals t = .ok ([], .withArgument flag t) := by
  cases t <;> rw [chain, if_pos h]

theorem consume_withArgument {p q : Progress} {flag : Flag} {short : Bool} {a : Attached}
    {rest : List Word} (h : flag.takesArgument = true) (hq : p.take flag a.argument = .ok q) :
    consume p (.option flag short (some a) :: rest) = consume q rest := by
  simp only [consume, wordOptions, chain_of_takesArgument h]
  change (p.take flag a.argument >>= fun q => consume q rest) = _
  rw [hq]
  rfl

theorem Progress.take_rawBlocks (p : Progress) (policy : RawPolicy) :
    p.take .rawBlocks policy.name =
      .ok { p with options := { p.options with rawBlocks := policy } } := by
  simp only [take, RawPolicy.ofName?_name]

/-- Any options at all are asked for by some command line. -/
theorem Options.parse_arguments (o : Options) : parse o.arguments = .ok o := by
  obtain ⟨input, output, policy, verbose⟩ := o
  have hinput : words [twoDashes, input] = .ok [.separator, .plain input] := rfl
  have hwords : ∀ rest ws, words rest = .ok ws →
      parse ((Text.ofString "--output=" ++ output) ::
        (Text.ofString "--raw-block=" ++ policy.name) :: rest) =
      (do
        let p ← consume ⟨⟨standardStream, output, policy, false⟩, none, []⟩ ws
        if p.left.isEmpty then
          return { p.options with input := p.input.getD standardStream }
        else throw (.misuse (.unrecognized p.left.reverse))) := by
    intro rest ws hrest
    rw [parse, words_cons (classify_output _) (words_cons (classify_rawBlocks _) hrest)]
    simp only [refuse]
    change (consume .start _ >>= _) = _
    rw [consume_withArgument rfl rfl, consume_withArgument rfl (Progress.take_rawBlocks _ policy)]
    rfl
  cases verbose with
  | false => exact hwords _ _ hinput
  | true => exact hwords _ _ (words_cons classify_verbose hinput)

/-! ## The law -/

/-- All routes deliver the same. Bytes without long numbers, whose conversion
has no surrogates, are converted under a policy in the same way whether they
come from the stream or from a file, and whether the output goes to the
stream or to a file, wherever the files are. The run ends well just when the
bytes have a conversion, and then it delivers the output of that. It breaks
off where rendering does. Otherwise it reports a failure, as it does for an
input that cannot be opened, and in both cases nothing changes. The output
may go to the input file itself. -/
theorem all_routes_deliver_the_same {policy : RawPolicy} {bytes : List UInt8}
    (short : HasShortNumbers bytes)
    (writable : ∀ c, Converts policy bytes c → ∀ p ∈ c.output, p.isSurrogate = false) :
    (∀ o : Options, ∃ arguments, Options.parse arguments = .ok o) ∧
    ∀ arguments o stdin files, Options.parse arguments = .ok o →
      (∀ fault, inputOf o stdin files = .error (.file fault) →
        (run arguments stdin files).Refuses files) ∧
      (∀ content, o.output = o.input → inputOf o stdin files = .ok content →
        o.output = standardStream ∨ ∃ place, files.bytesAt? place = some content ∧
          (place ∉ files.unwritable → files.target (Path.ofText o.output) = .ok place)) ∧
      (o.rawBlocks = policy → inputOf o stdin files = .ok bytes → o.Writable files →
        (∀ c, Converts policy bytes c → (run arguments stdin files).ending = .exit 0 ∧
          (run arguments stdin files).Delivers o files c.output) ∧
        (Overflows policy bytes → (run arguments stdin files).BreaksOff files) ∧
        ((¬ ∃ c, Converts policy bytes c) → ¬ Overflows policy bytes →
          (run arguments stdin files).Refuses files)) := by
  refine ⟨fun o => ⟨_, o.parse_arguments⟩, ?_⟩
  intro arguments o stdin files parsed
  -- The command line has its say in the options and in nothing else.
  simp only [run, parsed, runWith]
  refine ⟨?_, fun _ => Options.writable_of_same, ?_⟩
  · intro fault hin
    have hconvert : convertInput o (.error (.file fault)) = .error (.unreadable (.file fault)) :=
      rfl
    rw [hin]
    exact runOn_refuses hconvert rfl
  · rintro rfl hin hw
    rw [hin]
    exact runOn_ok short writable hw

/-- The text of a document with one word in it. -/
def wordText : Text := Text.ofString "[\x7b\x7d,[\x7b\"t\":\"Str\",\"c\":\"k\"\x7d]]"

/-- The document in bytes. -/
def wordDocument : List UInt8 := wordText.map fun c => UInt8.ofNat c.val

/-- The slides of the document. -/
def wordSlides : List Slide := [[.str [CodePoint.ofChar 'k']]]

theorem inputText_wordDocument : inputText wordDocument = .ok wordText := rfl

theorem ofText_wordText :
    Conversion.ofText Config.standard wordText =
      .ok (Conversion.plain Config.standard ⟨[], wordSlides.flatten⟩) :=
  Conversion.ofText_of_read rfl rfl (by decide) (by decide)

theorem isSurrogate_deck_wordSlides :
    ∀ p ∈ Config.standard.deck wordSlides, p.isSurrogate = false :=
  Config.isSurrogate_deck_standard (by decide +kernel)

theorem converts_wordDocument {c : Conversion} :
    Converts .passthrough wordDocument c ↔
      c = Conversion.plain Config.standard ⟨[], wordSlides.flatten⟩ := by
  constructor
  · rintro ⟨t, ht, hc⟩
    cases inputText_wordDocument.symm.trans ht
    exact (Except.ok.inj (ofText_wordText.symm.trans hc)).symm
  · rintro rfl
    exact ⟨_, inputText_wordDocument, ofText_wordText⟩

theorem hasShortNumbers_wordDocument : HasShortNumbers wordDocument := by
  intro t ht n hn
  cases inputText_wordDocument.symm.trans ht
  cases ofText_wordText.symm.trans ((Conversion.ofText_eq_longNumber Config.standard).mpr hn)

/-- The file of the example, with the document in it. -/
def wordFile : Files := oneFile.put oneFilePlace wordDocument

/-- The document is replaced by its deck, named from the root where it is
read and from the working directory where it is written. -/
theorem all_routes_deliver_the_same_in_place :
    ∃ o, (run (Text.ofString "/w/t" :: toFile "t") [] wordFile).ending = .exit 0 ∧
      (run (Text.ofString "/w/t" :: toFile "t") [] wordFile).Delivers o wordFile
        (Config.standard.deck wordSlides) := by
  have law := all_routes_deliver_the_same hasShortNumbers_wordDocument fun c hc =>
    (converts_wordDocument.mp hc) ▸ isSurrogate_deck_wordSlides
  obtain ⟨-, -, delivered⟩ := law.2 (Text.ofString "/w/t" :: toFile "t")
    { Options.standard with input := Text.ofString "/w/t", output := Text.ofString "t" } []
    wordFile rfl
  have hin : inputOf { Options.standard with
      input := Text.ofString "/w/t", output := Text.ofString "t" } [] wordFile =
      .ok wordDocument := rfl
  have hw : Options.Writable { Options.standard with
      input := Text.ofString "/w/t", output := Text.ofString "t" } wordFile :=
    .inr ⟨oneFilePlace, rfl⟩
  exact ⟨_, (delivered rfl hin hw).1 _ (converts_wordDocument.mpr rfl)⟩

/-! ## A run that breaks off -/

/-- There are bytes of a document that is read and not refused, without a
number that is too long, and that rendering does not get through. -/
theorem exists_overflows {k : Nat} (hread : k + 1 ≤ Node.depthLimit) (hrender : callLimit < k * 5)
    (hparse : 2 * k + 3 ≤ Json.Limits.standard.depth) :
    ∃ bytes, HasShortNumbers bytes ∧ Overflows .passthrough bytes := by
  obtain ⟨bytes, -, hdecode⟩ := Utf8.exists_encode_eq_ok (Node.isSurrogate_documentText k)
  have hin : inputText bytes = .ok (Node.documentText (Node.paragraphsText k)).unifyLineEnds := by
    simp only [inputText, hdecode, Except.map]
  have hvalue := Json.parse_unifyLineEnds_eq_ok.mpr ((Node.spelledBy_paragraphs k).parse hparse)
  obtain ⟨hdocument, hdeep⟩ := Document.paragraphs_overflow hread hrender
  have hkept : RawPolicy.passthrough ≠ .fail := by decide
  refine ⟨bytes, fun t ht n hn => ?_, _, hin, _, _, hvalue, hdocument, fun h => hkept h.1, hdeep⟩
  cases hin.symm.trans ht
  cases hvalue.symm.trans (Conversion.parse_eq_longNumber.mpr hn)

/-- A run on such bytes does not end in 0, and not in 1 either. -/
theorem a_run_may_neither_succeed_nor_fail :
    ¬ ∀ policy bytes, HasShortNumbers bytes →
      (∀ c, Converts policy bytes c → ∀ p ∈ c.output, p.isSurrogate = false) →
      ∀ arguments o stdin files, Options.parse arguments = .ok o → o.rawBlocks = policy →
        inputOf o stdin files = .ok bytes → o.Writable files →
          ((∃ c, Converts policy bytes c) → (run arguments stdin files).ending = .exit 0) ∧
          ((¬ ∃ c, Converts policy bytes c) → (run arguments stdin files).ending = .exit 1) := by
  intro h
  obtain ⟨bytes, short, hover⟩ :=
    exists_overflows (k := 220) (by decide) (by decide) (by decide)
  have hnone : ∀ c, ¬ Converts .passthrough bytes c := fun c hc =>
    not_overflows_of_converts hc hover
  have hends := (h .passthrough bytes short (fun c hc => absurd hc (hnone c)) [] .standard bytes
    noFiles rfl rfl rfl (.inl rfl)).2 fun ⟨c, hc⟩ => hnone c hc
  have hbreaks : (run [] bytes noFiles).ending = .uncaught .overflow := by
    change (runOn .standard (.ok bytes) noFiles).ending = _
    rw [runOn, convertInput_eq_overflow.mpr hover]
    rfl
  cases hends.symm.trans hbreaks

end Lectern.Cli
