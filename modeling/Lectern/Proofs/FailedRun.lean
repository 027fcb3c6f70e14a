-- Runs that fail. A run that fails writes nothing, with one exception. The
-- file to write to is emptied before the output is put into bytes, so a
-- surrogate in the output costs the file what it held.
import Mathlib.Data.List.TakeWhile
import Lectern.Cli.Run
import Lectern.Proofs.OpenCalls

namespace Lectern

/-! ## Surrogates -/

/-- A text cannot be put into bytes if a surrogate stands in it, and only
then. -/
theorem Utf8.exists_encode_eq_error {t : Text} :
    (∃ u, encode t = .error u) ↔ ∃ c ∈ t, c.isSurrogate := by
  unfold encode firstUnwritable?
  have hdrop : t.dropWhile (!·.isSurrogate) = [] ↔ ¬ ∃ c ∈ t, c.isSurrogate := by
    simp [List.dropWhile_eq_nil_iff]
  cases hd : t.dropWhile (!·.isSurrogate) with
  | nil =>
    have hnone := hdrop.mp hd
    simp [hnone]
  | cons c rest =>
    have hsome : ∃ c ∈ t, c.isSurrogate := by
      apply Decidable.not_not.mp
      intro hnone
      rw [hdrop.mpr hnone] at hd
      cases hd
    simp only [Except.error.injEq, exists_eq', true_iff]
    exact hsome

namespace Cli

/-! ## Writing what is there -/

/-- To write what a file holds changes nothing, and nothing else does. -/
theorem Files.put_eq_self {files : Files} {place : Location} {bytes : List UInt8} :
    files.put place bytes = files ↔ files.bytesAt? place = some bytes := by
  constructor
  · intro h
    rw [← h]
    exact bytesAt?_put_self files place bytes
  · intro h
    have hput : ∀ contents : List (Location × List UInt8), contents.lookup place = some bytes →
        putIn contents place bytes = contents := by
      intro contents h
      induction contents with
      | nil => simp at h
      | cons f contents ih =>
        obtain ⟨p, b⟩ := f
        by_cases hp : p = place
        · subst hp
          simp only [List.lookup_cons_self, Option.some.injEq] at h
          rw [putIn, if_pos rfl, h]
        · have hne : (place == p) = false := by simpa using fun e => hp e.symm
          rw [List.lookup_cons, hne] at h
          rw [putIn, if_neg hp, ih h]
    rw [put, hput files.contents h]

/-! ## The file that is emptied -/

/-- The run opens the file at this place to write a text that cannot be
written. -/
structure Spoils (o : Options) (input : Except OpenFault (List UInt8)) (files : Files)
    (place : Location) : Prop where
  converted : ∃ c, convertInput o input = .ok c ∧ ∃ p ∈ c.output, p.isSurrogate
  toFile : o.output ≠ standardStream
  target : files.target (Path.ofText o.output) = .ok place

section

variable {o : Options} {input : Except OpenFault (List UInt8)} {files : Files}

/-- A file that is spoiled is left empty. -/
theorem Spoils.runOn_eq {place : Location} (h : Spoils o input files place) :
    (runOn o input files).files = files.put place [] ∧
      ∃ u, (runOn o input files).ending = .uncaught (.unwritable u) := by
  obtain ⟨c, hc, hs⟩ := h.converted
  obtain ⟨u, hu⟩ := Utf8.exists_encode_eq_error.mpr hs
  simp only [runOn, hc, deliver, if_neg h.toFile, h.target, hu, true_and]
  exact ⟨u, rfl⟩

/-- Output that fails has written nothing to the stream. Files are as they
were, or one of them is spoiled. -/
theorem deliver_failed {events : List Event} {c : Conversion}
    (hc : convertInput o input = .ok c)
    (failed : (deliver o files events c).ending ≠ .exit 0) :
    (deliver o files events c).output = [] ∧
      (∃ cause, (deliver o files events c).ending = .uncaught cause) ∧
      ((deliver o files events c).files = files ∨ ∃ place, Spoils o input files place) := by
  unfold deliver at failed ⊢
  by_cases ho : o.output = standardStream
  · simp only [if_pos ho] at failed ⊢
    cases hu : Utf8.encode c.output with
    | error u => exact ⟨rfl, ⟨_, rfl⟩, .inl rfl⟩
    | ok bytes => simp [hu] at failed
  · simp only [if_neg ho] at failed ⊢
    cases ht : files.target (Path.ofText o.output) with
    | error fault => exact ⟨rfl, ⟨_, rfl⟩, .inl rfl⟩
    | ok place =>
      cases hu : Utf8.encode c.output with
      | error u =>
        have hs := Utf8.exists_encode_eq_error.mp ⟨u, hu⟩
        exact ⟨rfl, ⟨_, rfl⟩, .inr ⟨place, ⟨c, hc, hs⟩, ho, ht⟩⟩
      | ok bytes => simp [ht, hu] at failed

/-- A run that fails has written nothing to the stream. Files are as they
were, or one of them is spoiled. -/
theorem runOn_failed (failed : (runOn o input files).ending ≠ .exit 0) :
    (runOn o input files).output = [] ∧
      ((runOn o input files).ending = .exit 1 ∨
        ∃ cause, (runOn o input files).ending = .uncaught cause) ∧
      ((runOn o input files).files = files ∨ ∃ place, Spoils o input files place) := by
  cases hc : convertInput o input with
  | ok c =>
    simp only [runOn, hc] at failed ⊢
    obtain ⟨hout, hend, hfiles⟩ := deliver_failed hc failed
    exact ⟨hout, .inr hend, hfiles⟩
  | error failure =>
    simp only [runOn, hc]
    cases failure.uncaught? with
    | some cause => exact ⟨rfl, .inr ⟨cause, rfl⟩, .inl rfl⟩
    | none => exact ⟨rfl, .inl rfl, .inl rfl⟩

end

/-! ## The law -/

/-- A run that fails writes nothing to the stream and leaves all files as
they were, unless it spoils a file that holds something or is not there yet.
That file is empty then, the others are as they were, and the run breaks
off. -/
theorem a_failed_run_changes_only_a_file_it_spoils {arguments : List Text} {o : Options}
    {stdin : List UInt8} {files : Files} {r : Outcome}
    (parsed : Options.parse arguments = .ok o) (ran : run arguments stdin files = r)
    (failed : r.ending ≠ .exit 0) :
    r.output = [] ∧
    (r.ending = .exit 1 ∨ ∃ cause, r.ending = .uncaught cause) ∧
    (r.files = files ↔
      ∀ place, Spoils o (inputOf o stdin files) files place →
        files.bytesAt? place = some []) ∧
    (r.files = files ∨ ∃ place, Spoils o (inputOf o stdin files) files place) ∧
    ∀ place, Spoils o (inputOf o stdin files) files place →
      (∃ u, r.ending = .uncaught (.unwritable u)) ∧
      r.files = files.put place [] ∧
      r.files.bytesAt? place = some [] ∧
      ∀ other ≠ place, r.files.bytesAt? other = files.bytesAt? other := by
  have hr : runOn o (inputOf o stdin files) files = r := by
    rw [← ran]
    simp only [run, parsed, runWith]
  subst hr
  obtain ⟨hout, hend, hfiles⟩ := runOn_failed failed
  refine ⟨hout, hend, ⟨?_, ?_⟩, hfiles, ?_⟩
  · intro h place hs
    rw [hs.runOn_eq.1] at h
    exact Files.put_eq_self.mp h
  · intro h
    rcases hfiles with hfiles | ⟨spoiled, hs⟩
    · exact hfiles
    · rw [hs.runOn_eq.1, Files.put_eq_self.mpr (h spoiled hs)]
  · intro place hs
    refine ⟨hs.runOn_eq.2, hs.runOn_eq.1, ?_, ?_⟩
    · rw [hs.runOn_eq.1]
      exact Files.bytesAt?_put_self files place []
    · intro other ho
      rw [hs.runOn_eq.1]
      exact Files.bytesAt?_put_other files [] ho

/-- The text of a document whose only text is a surrogate. -/
def surrogateText : Text :=
  Text.ofString "[\x7b\x7d,[\x7b\"t\":\"Str\",\"c\":\"\\ud800\"\x7d]]"

/-- The document in bytes. -/
def surrogateDocument : List UInt8 := surrogateText.map fun c => UInt8.ofNat c.val

/-- A working directory with a file that holds one byte. -/
def oneFile : Files where
  here := [Path.bytes (Text.ofString "w")]
  contents := [([Path.bytes (Text.ofString "w"), Path.bytes (Text.ofString "t")], [107])]
  directories := []
  unreadable := []
  unwritable := []

/-- The place of the file. -/
def oneFilePlace : Location := [Path.bytes (Text.ofString "w"), Path.bytes (Text.ofString "t")]

/-- The file is found from the working directory and from the root. -/
theorem target_oneFile : oneFile.target (Path.ofText (Text.ofString "t")) = .ok oneFilePlace ∧
    oneFile.target (Path.ofText (Text.ofString "/w/../w/t")) = .ok oneFilePlace :=
  ⟨rfl, rfl⟩

/-- The arguments that send the output to a file. -/
def toFile (output : String) : List Text := [Text.ofString "-o", Text.ofString output]

theorem convertInput_surrogateDocument {o : Options} (policy : o.rawBlocks = .passthrough) :
    ∃ c, convertInput o (.ok surrogateDocument) = .ok c ∧ ∃ p ∈ c.output, p.isSurrogate := by
  have hconfig : o.config = Config.standard := by
    rw [Options.config, policy]
    rfl
  have hinput : inputText surrogateDocument = .ok surrogateText := rfl
  have hc : Conversion.ofText Config.standard surrogateText =
      .ok (Conversion.plain Config.standard (Document.ofNode (.str [CodePoint.ofNat 0xD800]))) :=
    Conversion.ofText_of_read rfl rfl (by decide) (by decide)
  refine ⟨Conversion.plain Config.standard (Document.ofNode (.str [CodePoint.ofNat 0xD800])),
    ?_, CodePoint.ofNat 0xD800, ?_, rfl⟩
  · simp only [convertInput, hinput, hconfig, hc]
  · apply List.mem_append_left
    apply List.mem_append_right
    decide +kernel

/-- The surrogate makes the run spoil the file, whichever way the file is
named. -/
theorem spoils_oneFile {output : String}
    (ho : output = "t" ∨ output = "/w/../w/t") :
    ∃ o, Options.parse (toFile output) = .ok o ∧
      Spoils o (inputOf o surrogateDocument oneFile) oneFile oneFilePlace := by
  rcases ho with rfl | rfl
  · exact ⟨_, rfl, convertInput_surrogateDocument rfl, by decide, target_oneFile.1⟩
  · exact ⟨_, rfl, convertInput_surrogateDocument rfl, by decide, target_oneFile.2⟩

theorem run_spoils_oneFile {output : String} {o : Options}
    (parsed : Options.parse (toFile output) = .ok o)
    (h : Spoils o (inputOf o surrogateDocument oneFile) oneFile oneFilePlace) :
    (run (toFile output) surrogateDocument oneFile).ending ≠ .exit 0 := by
  obtain ⟨-, u, hending⟩ := h.runOn_eq
  simp only [run, parsed, runWith, hending]
  exact nofun

theorem a_failed_run_changes_only_a_file_it_spoils_surrogate :
    (run (toFile "t") surrogateDocument oneFile).files = oneFile.put oneFilePlace [] ∧
      (run (toFile "/w/../w/t") surrogateDocument oneFile).files =
        oneFile.put oneFilePlace [] := by
  obtain ⟨_, parsed, hs⟩ := spoils_oneFile (.inl rfl)
  obtain ⟨_, parsed', hs'⟩ := spoils_oneFile (.inr rfl)
  have h := a_failed_run_changes_only_a_file_it_spoils parsed rfl (run_spoils_oneFile parsed hs)
  have h' :=
    a_failed_run_changes_only_a_file_it_spoils parsed' rfl (run_spoils_oneFile parsed' hs')
  exact ⟨(h.2.2.2.2 _ hs).2.1, (h'.2.2.2.2 _ hs').2.1⟩

/-- So a run that fails may change a file. -/
theorem a_failed_run_may_change_a_file : ¬ ∀ arguments o stdin files,
    Options.parse arguments = .ok o → (run arguments stdin files).ending ≠ .exit 0 →
      (run arguments stdin files).output = [] ∧
      ∀ place, (run arguments stdin files).files.bytesAt? place = files.bytesAt? place := by
  intro h
  obtain ⟨o, parsed, hs⟩ := spoils_oneFile (.inl rfl)
  obtain ⟨_, hkept⟩ := h _ o surrogateDocument oneFile parsed (run_spoils_oneFile parsed hs)
  have hlost := hkept oneFilePlace
  simp only [run, parsed, runWith, hs.runOn_eq.1, Files.bytesAt?_put_self] at hlost
  exact absurd hlost (by decide)

end Cli

end Lectern
