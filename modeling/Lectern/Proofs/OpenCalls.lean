-- Documents that one pass gets through and another does not. Reading keeps
-- fewer calls open at a node than rendering does, and fewer at a bullet list
-- than writing does. So there are documents that are read and have no deck,
-- and documents that are read and cannot be written again. All of them are
-- high: a pass gets through nodes up to a height that its calls allow.
import Mathlib.Logic.Function.Iterate
import Lectern.Conversion
import Lectern.Proofs.RoundTrip
import Lectern.Proofs.Segmentation

namespace Lectern

/-! ## Rendering a document -/

/-- Rendering gets through the nodes of a document. -/
def Document.Renders (d : Document) : Prop := Node.Fits Tag.renderCalls 0 d.blocks

instance (d : Document) : Decidable d.Renders :=
  inferInstanceAs (Decidable (Node.Fits Tag.renderCalls 0 d.blocks))

/-- Rendering gets through the slides of nodes if it gets through the nodes.
The rules that are on no slide hold nothing. -/
theorem Slide.fits_segment (nodes : List Node) :
    (∀ s ∈ segment nodes, s.Fits) ↔ Node.Fits Tag.renderCalls 0 nodes := by
  have hrule : ∀ n : Node, n.tag = .rule → Node.Fits Tag.renderCalls 0 [n] := by
    intro n hn
    obtain rfl := n.tag_eq_rule.mp hn
    decide
  have hflatten : (∀ s ∈ segment nodes, s.Fits) ↔
      ∀ n ∈ (segment nodes).flatten, Node.Fits Tag.renderCalls 0 [n] := by
    rw [List.forall_mem_flatten]
    exact forall₂_congr fun s _ => Node.fits_iff
  rw [hflatten, flatten_segment, Node.fits_iff]
  constructor
  · intro h n hn
    by_cases ht : n.tag = .rule
    · exact hrule n ht
    · exact h n (List.mem_filter.mpr ⟨hn, by simpa using ht⟩)
  · intro h n hn
    exact h n (List.mem_of_mem_filter hn)

namespace Conversion

/-- The conversion of a document of which no raw block is refused and which
rendering gets through. -/
def plain (config : Config) (d : Document) : Conversion :=
  ⟨d, Slide.segment d.blocks, config.deck (Slide.segment d.blocks)⟩

theorem ofDocument_eq (config : Config) (d : Document) :
    ofDocument config d =
      if config.rawBlocks = .fail ∧ holdsRawBlock d.blocks then .error .rawBlock
      else if d.Renders then .ok (plain config d) else .error .overflow := by
  have hrender : config.render? (Slide.segment d.blocks) =
      if d.Renders then some (config.deck (Slide.segment d.blocks)) else none :=
    if_congr (Slide.fits_segment d.blocks) rfl rfl
  simp only [ofDocument, hrender]
  congr 1
  by_cases h : d.Renders
  · simp only [if_pos h, plain]
  · simp only [if_neg h]

theorem ofPayload_of_error {config : Config} {payload : Json.Value} {f : Document.Fault}
    (h : Document.ofPayload payload = .error f) :
    ofPayload config payload = .error (.document f) := by
  rw [ofPayload, h]

theorem ofPayload_of_ok {config : Config} {payload : Json.Value} {d : Document}
    (h : Document.ofPayload payload = .ok d) :
    ofPayload config payload =
      if config.rawBlocks = .fail ∧ holdsRawBlock d.blocks then .error .rawBlock
      else if d.Renders then .ok (plain config d) else .error .overflow := by
  rw [ofPayload, h, ← ofDocument_eq]

/-- Settings that let raw blocks through convert what is read and rendered. -/
theorem ofPayload_unrefused {config : Config} {payload : Json.Value} {d : Document}
    (hpolicy : config.rawBlocks ≠ .fail) (h : Document.ofPayload payload = .ok d) :
    ofPayload config payload =
      if d.Renders then .ok (plain config d) else .error .overflow := by
  rw [ofPayload_of_ok h, if_neg fun hfail => hpolicy hfail.1]

/-- A text is converted if its document is read and rendered, and is not
refused. -/
theorem ofText_of_read {config : Config} {t : Text} {payload : Json.Value} {d : Document}
    (hparse : Json.parse t = .ok payload) (hread : Document.ofPayload payload = .ok d)
    (hraw : ¬ (config.rawBlocks = .fail ∧ holdsRawBlock d.blocks)) (hrenders : d.Renders) :
    ofText config t = .ok (plain config d) := by
  rw [ofText, hparse]
  simp only [ofPayload_of_ok hread, if_neg hraw, if_pos hrenders]

end Conversion

namespace Document

/-- The document of a payload has the nodes of its records. -/
theorem ofPayload_eq_ok {metadata : Json.Fields} {records : List Json.Value} {d : Document} :
    ofPayload (payload (.object metadata) records) = .ok d ↔
      d.metadata = metadata ∧ records.mapM Node.build = .ok d.blocks := by
  simp only [ofPayload, payload, openPayload, bind, Except.bind, Node.buildAll]
  cases records.mapM Node.build with
  | error fault => simp [throw, throwThe, MonadExceptOf.throw]
  | ok blocks =>
    simp only [pure, Except.pure, Except.ok.injEq]
    constructor
    · rintro rfl
      exact ⟨rfl, rfl⟩
    · rintro ⟨rfl, rfl⟩
      rfl

end Document

/-! ## Nodes that are not high -/

namespace Node

/-- A pass gets through a node that is not high, if it keeps no more than `w`
calls open at a node, and at a bullet list and its item together. -/
theorem fits_of_height {cost : Tag → Nat} {w : Nat} (hcost : ∀ tag, cost tag ≤ w)
    (hitem : cost .bullets + cost (.styled .plain) ≤ w) {d before : Nat} {n : Node}
    (hn : n.height ≤ d) (h : before + d * w ≤ callLimit) : Fits cost before [n] := by
  induction d generalizing before n with
  | zero => exact absurd n.height_pos (Nat.not_lt.mpr hn)
  | succ d ih =>
    rw [Nat.succ_mul] at h
    -- An item is a node of its own for the pass, and none for the height.
    have hparts : ∀ ns : List Node, (∀ m ∈ ns, m ∈ n.parts) → ∀ inside ≤ w,
        Fits cost (before + inside) ns := by
      intro ns hns inside hopen
      exact fits_iff.mpr fun m hm => ih (height_le_succ.mp hn m (hns m hm)) (by omega)
    refine fits_cons.mpr ⟨by omega, ?_, fits_nil⟩
    cases n with
    | str | space | rule | rawInline | rawBlock | codeBlock => exact fits_nil
    | header | styled => exact hparts _ (fun _ hm => hm) _ (hcost _)
    | bullets items =>
      refine fits_iff.mpr fun item hitems => ?_
      obtain ⟨contents, hcontents, rfl⟩ := List.mem_map.mp hitems
      have hbullets := hcost .bullets
      refine fits_cons.mpr ⟨?_, ?_, fits_nil⟩
      · show before + cost .bullets ≤ callLimit
        omega
      · show Fits cost (before + cost .bullets + cost (.styled .plain)) contents
        rw [Nat.add_assoc]
        exact hparts contents (fun m hm => List.mem_flatten.mpr ⟨contents, hcontents, hm⟩) _ hitem

/-! ## Nodes inside each other -/

section

variable {f : Node → Node}

theorem height_iterate (hf : ∀ n, (f n).height = n.height + 1) (k : Nat) (n : Node) :
    (f^[k] n).height = n.height + k := by
  induction k with
  | zero => rfl
  | succ k ih =>
    rw [Function.iterate_succ_apply', hf, ih]
    rfl

theorem normal_iterate (hf : ∀ n, (f n).normal = f n.normal) (k : Nat) (n : Node) :
    (f^[k] n).normal = f^[k] n.normal := by
  induction k with
  | zero => rfl
  | succ k ih => rw [Function.iterate_succ_apply', hf, ih, ← Function.iterate_succ_apply' f]

/-- Every node that is put around another keeps its calls open. -/
theorem fits_of_fits_iterate {cost : Tag → Nat} {w : Nat}
    (hf : ∀ before n, Fits cost before [f n] → Fits cost (before + w) [n]) (k before : Nat)
    (n : Node) (h : Fits cost before [f^[k] n]) : Fits cost (before + k * w) [n] := by
  induction k generalizing before with
  | zero => simpa using h
  | succ k ih =>
    rw [Function.iterate_succ_apply'] at h
    have hinner := ih (before + w) (hf before _ h)
    rwa [Nat.add_assoc, Nat.add_comm w, ← Nat.succ_mul] at hinner

end

/-- A pass comes to a node only with calls that may be open. -/
theorem Fits.before_le {cost : Tag → Nat} {before : Nat} {n : Node}
    (h : Fits cost before [n]) : before ≤ callLimit := (fits_cons.mp h).1

/-- A node in a quote. -/
def quoted (n : Node) : Node := .styled .quote [n]

/-- A node as the only one in an item of a bullet list. -/
def listed (n : Node) : Node := .bullets [[n]]

/-- A node in a paragraph. -/
def paragraph (n : Node) : Node := .styled .para [n]

theorem fits_inside {cost : Tag → Nat} {before : Nat} {style : Style} {n : Node}
    (h : Fits cost before [.styled style [n]]) : Fits cost (before + cost (.styled style)) [n] :=
  (fits_cons.mp h).2.1

theorem fits_listed {cost : Tag → Nat} {before : Nat} {n : Node}
    (h : Fits cost before [listed n]) :
    Fits cost (before + (cost .bullets + cost (.styled .plain))) [n] := by
  have hitem : Fits cost (before + cost .bullets) [.styled .plain [n]] := (fits_cons.mp h).2.1
  rw [← Nat.add_assoc]
  exact fits_inside hitem

theorem height_styled (style : Style) (n : Node) : (styled style [n]).height = n.height + 1 := by
  simp [height, heights]

theorem height_listed (n : Node) : (listed n).height = n.height + 1 := by
  simp [listed, height, itemHeights, heights]

/-- A space with paragraphs around it. -/
def paragraphs (k : Nat) : Node := paragraph^[k] .space

/-- A space with quotes around it, and bullet lists around those. -/
def listsAroundQuotes (lists quotes : Nat) : Node := listed^[lists] (quoted^[quotes] .space)

theorem height_paragraphs (k : Nat) : (paragraphs k).height = k + 1 := by
  rw [paragraphs, height_iterate (f := paragraph) (height_styled .para), Nat.add_comm]
  rfl

theorem height_listsAroundQuotes (lists quotes : Nat) :
    (listsAroundQuotes lists quotes).height = 1 + quotes + lists := by
  rw [listsAroundQuotes, height_iterate height_listed,
    height_iterate (f := quoted) (height_styled .quote)]
  rfl

theorem normal_paragraphs (k : Nat) : (paragraphs k).normal = paragraphs k :=
  normal_iterate (f := paragraph) (fun _ => rfl) k .space

theorem normal_listsAroundQuotes (lists quotes : Nat) :
    (listsAroundQuotes lists quotes).normal = listsAroundQuotes lists quotes := by
  rw [listsAroundQuotes, normal_iterate (f := listed) (fun _ => rfl),
    normal_iterate (f := quoted) fun _ => rfl]
  rfl

/-- Rendering keeps five calls open at a paragraph. -/
theorem le_of_fits_paragraphs {k : Nat} (h : Fits Tag.renderCalls 0 [paragraphs k]) :
    k * 5 ≤ callLimit := by
  have hspace := fits_of_fits_iterate (f := paragraph) (fun _ _ => fits_inside) k 0 .space h
  simpa [Tag.renderCalls] using hspace.before_le

/-- Writing keeps five calls open at a bullet list with its item, and three at
a quote. -/
theorem le_of_fits_listsAroundQuotes {lists quotes : Nat}
    (h : Fits Tag.writeCalls 0 [listsAroundQuotes lists quotes]) :
    lists * 5 + quotes * 3 ≤ callLimit := by
  have hquotes := fits_of_fits_iterate (f := listed) (fun _ _ => fits_listed) lists 0 _ h
  have hspace := fits_of_fits_iterate (f := quoted) (fun _ _ => fits_inside) quotes _ .space hquotes
  simpa [Tag.writeCalls] using hspace.before_le

end Node

/-! ## Documents of one such node -/

/-- The document of one node, without metadata. -/
def Document.ofNode (n : Node) : Document := ⟨[], [n]⟩

/-- The payload of one node, however deep it is. -/
def Node.payload (n : Node) : Json.Value := Document.payload (.object []) [n.toRecord]

theorem Document.ofPayload_payload_node {n : Node} (hheight : n.height ≤ Node.depthLimit)
    (hnormal : n.normal = n) : ofPayload n.payload = .ok (ofNode n) := by
  have hbuild : Node.build n.toRecord = .ok n := by
    rw [Node.build, Node.ofRecord_toRecord hheight, hnormal]
  refine ofPayload_eq_ok.mpr ⟨rfl, ?_⟩
  rw [List.mapM_cons, hbuild]
  rfl

/-- Paragraphs inside each other that are read and that rendering does not get
through. -/
theorem Document.paragraphs_overflow {k : Nat} (hread : k + 1 ≤ Node.depthLimit)
    (hrender : callLimit < k * 5) :
    ofPayload (Node.paragraphs k).payload = .ok (ofNode (Node.paragraphs k)) ∧
      ¬ (ofNode (Node.paragraphs k)).Renders := by
  refine ⟨ofPayload_payload_node ?_ (Node.normal_paragraphs k), fun h => ?_⟩
  · rwa [Node.height_paragraphs]
  · exact absurd (Node.le_of_fits_paragraphs h) (Nat.not_le.mpr hrender)

end Lectern
