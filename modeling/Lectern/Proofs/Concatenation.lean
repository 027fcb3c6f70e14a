-- Documents that go on. When more records come behind those of a document,
-- the conversion is known from those of the two parts: the fault of either,
-- or their slides, of which only the last of the first part and the first of
-- the second can become one. Both parts are read before either is rendered,
-- so a fault of the second comes before rendering breaks off at the first.
import Lectern.Proofs.OpenCalls
import Lectern.Proofs.RecordGrammar
import Lectern.Proofs.Segmentation
import Lectern.Proofs.Writing

namespace Lectern

open Json (Value)

/-! ## Reading the records of both parts -/

namespace Node

theorem Built.tag_eq {build : Value → Except Fault Node} {tag : Tag} {c : Value} {n : Node}
    (h : Built build tag c n) : n.tag = tag := by
  cases h <;> rfl

end Node

/-- The first of the records is of this kind. -/
def BeginsWith (tag : Tag) (records : List Value) : Prop :=
  ∃ first more c, records = first :: more ∧ Node.IsRecord tag c first

namespace Document

/-- The document that goes on with more nodes. -/
def extend (d : Document) (blocks : List Node) : Document := { d with blocks := d.blocks ++ blocks }

theorem ofPayload_payload (metadata : Value) (records : List Value) :
    ofPayload (payload metadata records) =
      match metadata with
      | .object fields =>
        match Node.buildAll records with
        | .ok blocks => .ok ⟨fields, blocks⟩
        | .error fault => .error (.node fault)
      | _ => .error .metadataNotObject := by
  cases metadata with
  | object fields =>
    simp only [ofPayload, payload, openPayload, bind, Except.bind]
    cases Node.buildAll records <;> rfl
  | null | bool | int | float | string | array => rfl

/-- The records of the first part are read before those of the second. -/
theorem ofPayload_append (metadata : Value) (xs ys : List Value) :
    ofPayload (payload metadata (xs ++ ys)) = do
      let d ← ofPayload (payload metadata xs)
      let e ← ofPayload (payload metadata ys)
      return d.extend e.blocks := by
  simp only [ofPayload_payload]
  cases metadata with
  | object fields =>
    simp only [Node.buildAll, List.mapM_append, bind, Except.bind]
    cases xs.mapM Node.build with
    | error fault => rfl
    | ok first => cases ys.mapM Node.build <;> rfl
  | null | bool | int | float | string | array => rfl

section

variable {metadata : Value} {records : List Value} {d : Document}
  (h : ofPayload (payload metadata records) = .ok d)

include h

/-- Each record gives a node of the document. -/
theorem forall₂_build : List.Forall₂ (fun r n => Node.build r = .ok n) records d.blocks := by
  rw [ofPayload_payload] at h
  split at h
  · split at h
    · rename_i hblocks
      cases h
      exact mapM_eq_ok.mp hblocks
    · cases h
  · cases h

theorem blocks_ne_nil (hne : records ≠ []) : d.blocks ≠ [] := by
  have hlength := (forall₂_build h).length_eq
  intro hnil
  rw [hnil] at hlength
  exact hne (List.eq_nil_of_length_eq_zero hlength)

/-- The first record and the first node are of the same kind. -/
theorem beginsWith_iff (tag : Tag) :
    BeginsWith tag records ↔ ∃ n more, d.blocks = n :: more ∧ n.tag = tag := by
  have hbuilt := forall₂_build h
  have hkind : ∀ {r n}, Node.build r = .ok n → ∃ c, Node.IsRecord n.tag c r := by
    intro r n hr
    obtain ⟨kind, c, hrecord, hn⟩ := Node.ofRecord_succ_eq_ok.mp hr
    exact ⟨c, hn.tag_eq ▸ hrecord⟩
  constructor
  · rintro ⟨first, more, c, rfl, hrecord⟩
    cases hblocks : d.blocks with
    | nil => simp [hblocks] at hbuilt
    | cons n rest =>
      rw [hblocks, List.forall₂_cons] at hbuilt
      obtain ⟨c', hn⟩ := hkind hbuilt.1
      exact ⟨n, rest, rfl, (hn.unique hrecord).1⟩
  · rintro ⟨n, rest, hblocks, rfl⟩
    cases records with
    | nil => simp [hblocks] at hbuilt
    | cons first more =>
      rw [hblocks, List.forall₂_cons] at hbuilt
      obtain ⟨c, hn⟩ := hkind hbuilt.1
      exact ⟨first, more, c, rfl, hn⟩

end

end Document

/-! ## Cutting the nodes of both parts -/

namespace Slide

section Loop

variable {α : Type} {boundary : α → Boundary}

/-- The loop over tokens that come behind a deck cuts them as tokens that
come after the start of its last slide. -/
theorem foldl_grow_cut (before : List (List α)) (last ts : List α) :
    ts.foldl (grow boundary) (before ++ [last]) =
      before ++ (last ++ (cut boundary ts).1) :: (cut boundary ts).2 := by
  induction ts generalizing before last with
  | nil => simp [cut]
  | cons t ts ih =>
    rw [List.foldl_cons]
    rcases ht : boundary t with _ | _ | _
    · rw [grow_opens ht, ih]
      simp [cut, ht]
    · rw [grow_breaks ht (by simp), ih]
      simp [cut, ht]
    · rw [grow_joins before last ht, ih]
      simp [cut, ht]

variable (boundary) in
theorem exists_segmentBy_eq {ts : List α} (h : ts ≠ []) :
    ∃ before last, segmentBy boundary ts = before ++ [last] := by
  obtain ⟨t, more, rfl⟩ := List.exists_cons_of_ne_nil h
  have hne : segmentBy boundary (t :: more) ≠ [] := by
    rcases ht : boundary t with _ | _ | _ <;> simp [segmentBy, ht]
  obtain ⟨before, last, hsegment⟩ := (List.eq_nil_or_concat _).resolve_left hne
  exact ⟨before, last, by rw [hsegment, List.concat_eq_append]⟩

theorem segmentBy_append {xs : List α} {before : List (List α)} {last : List α}
    (h : segmentBy boundary xs = before ++ [last]) (ys : List α) :
    segmentBy boundary (xs ++ ys) =
      before ++ (last ++ (cut boundary ys).1) :: (cut boundary ys).2 := by
  rw [segmentBy_eq_foldl, List.foldl_append, ← segmentBy_eq_foldl, h, foldl_grow_cut]

variable {xs : List α} {t : α} (ts : List α)

/-- The first token of the second part opens a slide of its own. -/
theorem segmentBy_append_opens (hx : xs ≠ []) (ht : boundary t = .opens) :
    segmentBy boundary (xs ++ t :: ts) =
      segmentBy boundary xs ++ segmentBy boundary (t :: ts) := by
  obtain ⟨before, last, h⟩ := exists_segmentBy_eq boundary hx
  rw [segmentBy_append h, h]
  simp [cut, segmentBy, ht]

/-- Alone, the second part has a blank slide in front of the rule. -/
theorem segmentBy_append_breaks (hx : xs ≠ []) (ht : boundary t = .breaks) :
    ∃ later, segmentBy boundary (t :: ts) = [] :: later ∧
      segmentBy boundary (xs ++ t :: ts) = segmentBy boundary xs ++ later := by
  obtain ⟨before, last, h⟩ := exists_segmentBy_eq boundary hx
  refine ⟨(cut boundary ts).1 :: (cut boundary ts).2, by simp [segmentBy, ht], ?_⟩
  rw [segmentBy_append h, h]
  simp [cut, ht]

/-- The first slide of the second part goes on the last of the first. -/
theorem segmentBy_append_joins (hx : xs ≠ []) (ht : boundary t = .joins) :
    ∃ before last first later, segmentBy boundary xs = before ++ [last] ∧
      segmentBy boundary (t :: ts) = first :: later ∧
      segmentBy boundary (xs ++ t :: ts) = before ++ (last ++ first) :: later := by
  obtain ⟨before, last, h⟩ := exists_segmentBy_eq boundary hx
  refine ⟨before, last, t :: (cut boundary ts).1, (cut boundary ts).2, h,
    by simp [segmentBy, ht], ?_⟩
  rw [segmentBy_append h]
  simp [cut, ht]

end Loop

end Slide

/-! ## The law -/

namespace Conversion

/-- The conversion of a document given by its metadata and its records. -/
def ofRecords (config : Config) (metadata : Value) (records : List Value) :
    Except Fault Conversion :=
  ofPayload config (Document.payload metadata records)

section

variable {config : Config} (hpolicy : config.rawBlocks ≠ .fail) (metadata : Value)

include hpolicy

theorem ofRecords_eq (records : List Value) :
    ofRecords config metadata records =
      match Document.ofPayload (Document.payload metadata records) with
      | .error fault => .error (.document fault)
      | .ok d => if d.Renders then .ok (plain config d) else .error .overflow := by
  rw [ofRecords]
  cases h : Document.ofPayload (Document.payload metadata records) with
  | error fault => rw [ofPayload_of_error h]
  | ok d => exact ofPayload_unrefused hpolicy h

theorem ofRecords_eq_ok {records : List Value} {c : Conversion} :
    ofRecords config metadata records = .ok c ↔
      ∃ d, Document.ofPayload (Document.payload metadata records) = .ok d ∧ d.Renders ∧
        plain config d = c := by
  rw [ofRecords_eq hpolicy]
  cases Document.ofPayload (Document.payload metadata records) with
  | error fault => simp
  | ok d => by_cases h : d.Renders <;> simp [h]

/-- The fault of a document that goes on with more, or the document. A fault of
the second part comes before rendering breaks off at the first. -/
theorem ofRecords_append (xs ys : List Value) :
    ofRecords config metadata (xs ++ ys) =
      match ofRecords config metadata xs, ofRecords config metadata ys with
      | .ok X, .ok Y => .ok (plain config (X.document.extend Y.document.blocks))
      | .ok _, .error g | .error .overflow, .error g => .error g
      | .error f, _ => .error f := by
  simp only [ofRecords_eq hpolicy, Document.ofPayload_append]
  cases Document.ofPayload (Document.payload metadata xs) with
  | error fault => rfl
  | ok d =>
    cases Document.ofPayload (Document.payload metadata ys) with
    | error fault => by_cases hd : d.Renders <;> simp [hd, bind, Except.bind]
    | ok e =>
      have hextend : (d.extend e.blocks).Renders ↔ d.Renders ∧ e.Renders := Node.fits_append
      simp only [bind, Except.bind, pure, Except.pure, hextend]
      by_cases hd : d.Renders
      · by_cases he : e.Renders <;> simp [hd, he, plain]
      · by_cases he : e.Renders <;> simp [hd, he]

/-- Both parts are converted, or there is a fault. -/
theorem fails_append_iff (xs ys : List Value) :
    (∃ f, ofRecords config metadata (xs ++ ys) = .error f) ↔
      (∃ f, ofRecords config metadata xs = .error f) ∨
        ∃ f, ofRecords config metadata ys = .error f := by
  rw [ofRecords_append hpolicy]
  cases ofRecords config metadata xs with
  | ok X => cases ofRecords config metadata ys <;> simp
  | error f =>
    cases ofRecords config metadata ys with
    | ok Y => cases f <;> simp
    | error g => cases f <;> simp

end

section Seam

variable {metadata : Value} {ys : List Value} {nodes : List Node} {e : Document}
  (hn : nodes ≠ []) (he : Document.ofPayload (Document.payload metadata ys) = .ok e)

include hn he

theorem segment_append_of_header (h : BeginsWith .header ys) :
    Slide.segment (nodes ++ e.blocks) = Slide.segment nodes ++ Slide.segment e.blocks := by
  obtain ⟨n, more, hblocks, htag⟩ := (Document.beginsWith_iff he .header).mp h
  rw [hblocks]
  exact Slide.segmentBy_append_opens more hn (n.boundary_eq_opens.mpr htag)

theorem segment_append_of_rule (h : BeginsWith .rule ys) :
    ∃ later, Slide.segment e.blocks = [] :: later ∧
      Slide.segment (nodes ++ e.blocks) = Slide.segment nodes ++ later := by
  obtain ⟨n, more, hblocks, htag⟩ := (Document.beginsWith_iff he .rule).mp h
  rw [hblocks]
  exact Slide.segmentBy_append_breaks more hn (n.boundary_eq_breaks.mpr (n.tag_eq_rule.mp htag))

theorem segment_append_of_other (hy : ys ≠ []) (hheader : ¬ BeginsWith .header ys)
    (hrule : ¬ BeginsWith .rule ys) :
    ∃ before last first later, Slide.segment nodes = before ++ [last] ∧
      Slide.segment e.blocks = first :: later ∧
      Slide.segment (nodes ++ e.blocks) = before ++ (last ++ first) :: later := by
  obtain ⟨n, more, hblocks⟩ := List.exists_cons_of_ne_nil (Document.blocks_ne_nil he hy)
  have hjoins : n.boundary = .joins := by
    refine n.boundary_eq_joins.mpr ⟨fun hn => hrule ?_, fun hn => hheader ?_⟩
    · exact (Document.beginsWith_iff he .rule).mpr ⟨n, more, hblocks, hn⟩
    · exact (Document.beginsWith_iff he .header).mpr ⟨n, more, hblocks, hn⟩
  rw [hblocks]
  exact Slide.segmentBy_append_joins more hn hjoins

end Seam

/-- If the slides are those of nodes and more, then so are the frames. -/
theorem deck_segment_append (config : Config) {nodes more : List Node} {later : List Slide}
    (h : Slide.segment (nodes ++ more) = Slide.segment nodes ++ later) :
    config.deck (Slide.segment (nodes ++ more)) =
      config.prologue ++ (Slide.frames (Slide.segment nodes) ++ Slide.frames later) ++
        config.epilogue := by
  rw [h, Slide.deck_eq, Slide.frames_append]

/-- A document that goes on with more records is converted part by part. It
fails as its first part does, or else as its second. Where rendering breaks
off at the first part, a fault of the second comes before that. If no part
fails, then what the second begins with decides about the slides. A header
opens the next slide. A rule does too, and alone it has a blank slide in
front, which is not there. Any other node goes on the last slide. The frames
in front of a header or a rule are those of the first part. -/
theorem a_document_is_converted_part_by_part {config : Config}
    (hpolicy : config.rawBlocks ≠ .fail) (metadata : Value) {xs ys : List Value} (hx : xs ≠ [])
    (hy : ys ≠ []) :
    ((∃ f, ofRecords config metadata (xs ++ ys) = .error f) ↔
      (∃ f, ofRecords config metadata xs = .error f) ∨
        ∃ f, ofRecords config metadata ys = .error f) ∧
    (∀ f, ofRecords config metadata xs = .error f → f ≠ .overflow →
      ofRecords config metadata (xs ++ ys) = .error f) ∧
    (ofRecords config metadata xs = .error .overflow →
      (∀ g, ofRecords config metadata ys = .error g →
        ofRecords config metadata (xs ++ ys) = .error g) ∧
      ∀ Y, ofRecords config metadata ys = .ok Y →
        ofRecords config metadata (xs ++ ys) = .error .overflow) ∧
    (∀ X f, ofRecords config metadata xs = .ok X → ofRecords config metadata ys = .error f →
      ofRecords config metadata (xs ++ ys) = .error f) ∧
    ∀ X Y, ofRecords config metadata xs = .ok X → ofRecords config metadata ys = .ok Y →
      ∃ Z, ofRecords config metadata (xs ++ ys) = .ok Z ∧
        Z.document = X.document.extend Y.document.blocks ∧
        (BeginsWith .header ys → Z.slides = X.slides ++ Y.slides ∧
          Z.output = config.prologue ++ (Slide.frames X.slides ++ Slide.frames Y.slides) ++
            config.epilogue) ∧
        (BeginsWith .rule ys → ∃ later, Y.slides = [] :: later ∧ Z.slides = X.slides ++ later ∧
          Z.output = config.prologue ++ (Slide.frames X.slides ++ Slide.frames later) ++
            config.epilogue) ∧
        (¬ BeginsWith .header ys → ¬ BeginsWith .rule ys → ∃ before last first later,
          X.slides = before ++ [last] ∧ Y.slides = first :: later ∧
          Z.slides = before ++ (last ++ first) :: later) := by
  have happend := ofRecords_append hpolicy metadata xs ys
  refine ⟨fails_append_iff hpolicy metadata xs ys, ?_, ?_, ?_, ?_⟩
  · intro f hf hne
    rw [happend, hf]
    cases f with
    | overflow => exact absurd rfl hne
    | json | document | rawBlock => cases ofRecords config metadata ys <;> rfl
  · intro hf
    constructor
    · intro g hg
      rw [happend, hf, hg]
    · intro Y hY
      rw [happend, hf, hY]
  · intro X f hX hf
    rw [happend, hX, hf]
  · intro X Y hX hY
    obtain ⟨d, hd, -, rfl⟩ := (ofRecords_eq_ok hpolicy metadata).mp hX
    obtain ⟨e, he, -, rfl⟩ := (ofRecords_eq_ok hpolicy metadata).mp hY
    have hd' : d.blocks ≠ [] := Document.blocks_ne_nil hd hx
    refine ⟨plain config (d.extend e.blocks), ?_, rfl, ?_, ?_, ?_⟩
    · rw [happend, hX, hY]
      rfl
    · intro hheader
      have hslides := segment_append_of_header hd' he hheader
      exact ⟨hslides, deck_segment_append config hslides⟩
    · intro hrule
      obtain ⟨later, hsecond, hslides⟩ := segment_append_of_rule hd' he hrule
      exact ⟨later, hsecond, hslides, deck_segment_append config hslides⟩
    · intro hheader hrule
      exact segment_append_of_other hd' he hy hheader hrule

/-- A part that ends in a rule. -/
def ruleLast : List Value :=
  [Node.record .str (.string (Text.ofString "a")), Node.bareRecord .rule]

/-- A part that begins with a rule. -/
def ruleFirst : List Value :=
  [Node.bareRecord .rule, Node.record .str (.string (Text.ofString "b"))]

/-- The slide behind the first rule stays blank, and the blank slide that the
second part has in front when it is alone is not there. -/
theorem a_document_is_converted_part_by_part_rules :
    Config.standard.rawBlocks ≠ .fail ∧ ruleLast ≠ [] ∧ ruleFirst ≠ [] ∧
    ∃ X Y Z later, ofRecords Config.standard (.object []) ruleLast = .ok X ∧
      ofRecords Config.standard (.object []) ruleFirst = .ok Y ∧
      ofRecords Config.standard (.object []) (ruleLast ++ ruleFirst) = .ok Z ∧
      X.slides = [[.str (Text.ofString "a")], []] ∧ Y.slides = [] :: later ∧
      Z.slides = X.slides ++ later := by
  have hpolicy : Config.standard.rawBlocks ≠ .fail := by decide
  have hX : ofRecords Config.standard (.object []) ruleLast =
      .ok (plain Config.standard ⟨[], [.str (Text.ofString "a"), .rule]⟩) :=
    (ofRecords_eq_ok hpolicy _).mpr ⟨_, rfl, by decide, rfl⟩
  have hY : ofRecords Config.standard (.object []) ruleFirst =
      .ok (plain Config.standard ⟨[], [.rule, .str (Text.ofString "b")]⟩) :=
    (ofRecords_eq_ok hpolicy _).mpr ⟨_, rfl, by decide, rfl⟩
  have hlast : ruleLast ≠ [] := nofun
  have hfirst : ruleFirst ≠ [] := nofun
  have hlaw := a_document_is_converted_part_by_part hpolicy (.object []) hlast hfirst
  obtain ⟨Z, hZ, -, -, hslides, -⟩ := hlaw.2.2.2.2 _ _ hX hY
  have hrule : BeginsWith .rule ruleFirst := ⟨_, _, .null, rfl, _, rfl, rfl, rfl⟩
  obtain ⟨later, hsecond, hall, -⟩ := hslides hrule
  exact ⟨hpolicy, hlast, hfirst, _, _, Z, later, hX, hY, hZ, rfl, hsecond, hall⟩

/-- A record of no kind that there is. -/
def unknownRecord : Value := .object [(Node.tagField, .string (Text.ofString "NotAThing"))]

/-- Behind paragraphs that are too deep to be rendered, the fault of the record
is met and not that of the paragraphs. -/
theorem the_fault_of_the_first_part_may_not_be_met : ¬ ∀ config metadata xs ys f,
    config.rawBlocks ≠ .fail → xs ≠ [] → ys ≠ [] → ofRecords config metadata xs = .error f →
      ofRecords config metadata (xs ++ ys) = .error f := by
  intro h
  have hpolicy : Config.standard.rawBlocks ≠ .fail := by decide
  obtain ⟨hread, hrenders⟩ := Document.paragraphs_overflow (k := 220) (by decide) (by decide)
  have hxs : ofRecords Config.standard (.object []) [(Node.paragraphs 220).toRecord] =
      .error .overflow := by
    rw [ofRecords, ← Node.payload, ofPayload_unrefused hpolicy hread, if_neg hrenders]
  have hys : ofRecords Config.standard (.object []) [unknownRecord] =
      .error (.document (.node (.unknownTag (Text.ofString "NotAThing")))) := rfl
  have hfirst := h Config.standard (.object []) _ [unknownRecord] .overflow hpolicy
    (List.cons_ne_nil _ _) (List.cons_ne_nil _ _) hxs
  rw [ofRecords_append hpolicy, hxs, hys] at hfirst
  cases hfirst

end Conversion

end Lectern
