-- The policy on raw blocks. A conversion that refuses raw blocks is one that
-- lets them through, except that it fails when a raw block is left anywhere
-- in the document. What reading drops plays no part in either. A document
-- that is let through has a deck, unless rendering breaks off.
import Lectern.Proofs.Building
import Lectern.Proofs.OpenCalls

namespace Lectern

open Json (Value Fields)

namespace Node

/-! ## Nodes at any depth -/

/-- The node `m` is this node or stands in it, at any depth. -/
inductive Occurs (m : Node) : Node → Prop
  | here : Occurs m m
  | inside {n c : Node} (hc : c ∈ n.children) (h : Occurs m c) : Occurs m n

theorem mem_walk_singleton_iff_occurs {m n : Node} : m ∈ walk [n] ↔ Occurs m n := by
  constructor
  · intro h
    induction n using childInduction with
    | step n ih =>
      rcases mem_walk_singleton.mp h with rfl | ⟨c, hc, h⟩
      · exact .here
      · exact .inside hc (ih c hc h)
  · intro h
    induction h with
    | here => exact mem_walk_singleton.mpr (.inl rfl)
    | inside hc _ ih => exact mem_walk_singleton.mpr (.inr ⟨_, hc, ih⟩)

/-- The walk meets every node at any depth, and no other. -/
theorem mem_walk_iff_occurs {m : Node} {ns : List Node} :
    m ∈ walk ns ↔ ∃ n ∈ ns, Occurs m n := by
  rw [mem_walk]
  simp only [mem_walk_singleton_iff_occurs]

/-! ## Records without what is dropped -/

/-- A value with its contents replaced by what `f` makes of them. -/
def mapContents (f : Value → Value) (v : Value) : Value :=
  match v with
  | .object fields =>
    .object (Fields.put fields contentsField (f ((Fields.get? fields contentsField).getD .null)))
  | _ => v

/-- Each value of a list replaced by what `f` makes of it. -/
def mapList (f : Value → Value) (c : Value) : Value :=
  match c with
  | .array vs => .array (vs.map f)
  | _ => c

/-- An item with its first block alone. -/
def keptItem (keep : Value → Value) (item : Value) : Value :=
  match item with
  | .array (block :: _) => .array [mapContents (mapList keep) block]
  | _ => item

/-- The contents that count. A space and a rule have none. -/
def keptContents (keep : Value → Value) (tag : Tag) (c : Value) : Value :=
  match tag with
  | .space | .rule => .null
  | .styled _ => mapList keep c
  | .header =>
    match c with
    | .array [level, attributes, inlines] => .array [level, attributes, mapList keep inlines]
    | _ => c
  | .bullets => mapList (keptItem keep) c
  | .str | .rawInline | .rawBlock | .codeBlock => c

/-- A record without what is dropped, down to this depth: of each item of a
bullet list its first block, and of a space or a rule no contents. -/
def kept : Nat → Value → Value
  | 0, v => v
  | depth + 1, v =>
    match openRecord v with
    | .ok (name, _) =>
      match Tag.ofName? name with
      | some tag => mapContents (keptContents (fun r => kept depth r) tag) v
      | none => v
    | .error _ => v

theorem tagField_ne_contentsField : tagField ≠ contentsField := by decide

theorem openRecord_mapContents (f : Value → Value) (v : Value) :
    openRecord (mapContents f v) = (openRecord v).map fun opened => (opened.1, f opened.2) := by
  cases v with
  | object fields =>
    simp only [openRecord, mapContents, Fields.get?_put_self,
      Fields.get?_put_other fields _ tagField_ne_contentsField]
    split <;> rfl
  | null | bool | int | float | string | array => rfl

theorem itemBlock?_mapContents (f : Value → Value) (v : Value) :
    itemBlock? (mapContents f v) = (itemBlock? v).map fun block => (block.1, f block.2) := by
  cases v with
  | object fields =>
    simp only [itemBlock?, mapContents, Fields.get?_put_self,
      Fields.get?_put_other fields _ tagField_ne_contentsField]
    split
    · split
      · rfl
      · split <;> rfl
    · rfl
  | null | bool | int | float | string | array => rfl

theorem headerParts?_map (f : Value → Value) (level attributes inlines : Value) :
    headerParts? (.array [level, attributes, f inlines]) =
      (headerParts? (.array [level, attributes, inlines])).map
        fun parts => (parts.1, parts.2.1, f parts.2.2) := by
  cases level with
  | int level =>
    cases attributes with
    | array entries =>
      cases entries with
      | nil => rfl
      | cons entry more => cases entry <;> rfl
    | null | bool | int | float | string | object => rfl
  | null | bool | float | string | array | object => rfl

section

variable {build : Value → Except Fault Node} {keep : Value → Value}

theorem mapM_map_eq {α : Type} {f : Value → Except Fault α}
    (h : ∀ r, f (keep r) = f r) (records : List Value) :
    (records.map keep).mapM f = records.mapM f := by
  have hf : f ∘ keep = f := funext h
  rw [List.mapM_map, hf]

theorem ofItem_keptItem (h : ∀ r, build (keep r) = build r) (item : Value) :
    ofItem build (keptItem keep item) = ofItem build item := by
  cases item with
  | array blocks =>
    cases blocks with
    | nil => rfl
    | cons block more =>
      simp only [ofItem, keptItem, openItem?, Option.bind_some, itemBlock?_mapContents]
      cases itemBlock? block with
      | none => rfl
      | some opened =>
        obtain ⟨style, c⟩ := opened
        cases c with
        | array records => exact mapM_map_eq h records
        | null | bool | int | float | string | object => rfl
  | null | bool | int | float | string | object => rfl

theorem ofContents_keptContents (h : ∀ r, build (keep r) = build r) (tag : Tag) (c : Value) :
    ofContents build tag (keptContents keep tag c) = ofContents build tag c := by
  cases tag with
  | str | rawInline | rawBlock | codeBlock | space | rule => rfl
  | styled style =>
    cases c with
    | array records =>
      simp only [ofContents, keptContents, mapList, recordsOf, bind, Except.bind, mapM_map_eq h]
    | null | bool | int | float | string | object => rfl
  | bullets =>
    cases c with
    | array items =>
      simp only [ofContents, keptContents, mapList, recordsOf, bind, Except.bind,
        mapM_map_eq (ofItem_keptItem h)]
    | null | bool | int | float | string | object => rfl
  | header =>
    simp only [keptContents]
    split
    · rename_i level attributes inlines
      simp only [ofContents, headerParts?_map (mapList keep)]
      cases headerParts? (.array [level, attributes, inlines]) with
      | none => rfl
      | some parts =>
        obtain ⟨level, identifier, inlines⟩ := parts
        cases inlines with
        | array records =>
          simp only [Option.map_some, mapList, recordsOf, bind, Except.bind, mapM_map_eq h]
        | null | bool | int | float | string | object => rfl
    · rfl

end

/-- What is dropped has no part in building a record or in its fault. -/
theorem ofRecord_kept (depth : Nat) (v : Value) :
    ofRecord depth (kept depth v) = ofRecord depth v := by
  induction depth generalizing v with
  | zero => rfl
  | succ depth ih =>
    rw [kept]
    cases hopen : openRecord v with
    | error fault => rfl
    | ok opened =>
      -- The kind is found before anything is dropped, so both records have it.
      obtain ⟨name, c⟩ := opened
      cases htag : Tag.ofName? name with
      | none => simp only [htag]
      | some tag =>
        simp only [ofRecord, openRecord_mapContents, hopen, Except.map, bind, Except.bind, htag]
        exact ofContents_keptContents ih tag c

end Node

/-- A payload without what reading drops. -/
def withoutDropped (payload : Value) : Value :=
  match payload with
  | .array [metadata, .array records] =>
    .array [metadata, .array (records.map fun r => Node.kept Node.depthLimit r)]
  | _ => payload

theorem Document.ofPayload_withoutDropped (payload : Value) :
    ofPayload (withoutDropped payload) = ofPayload payload := by
  unfold withoutDropped
  split
  · rename_i metadata records
    cases metadata with
    | object metadata =>
      have hbuild : ∀ r, Node.build (Node.kept Node.depthLimit r) = Node.build r :=
        Node.ofRecord_kept Node.depthLimit
      simp only [ofPayload, openPayload, bind, Except.bind, Node.buildAll,
        Node.mapM_map_eq hbuild]
    | null | bool | int | float | string | array => rfl
  · rfl

/-! ## The policy -/

/-- A raw block stands among nodes, at any depth. -/
def Node.RawBlockIn (nodes : List Node) : Prop :=
  ∃ n ∈ nodes, ∃ format raw, Occurs (.rawBlock format raw) n

theorem RawPolicy.actingAs_eq_fail {v : Value} :
    actingAs v = .fail ↔ v = .string RawPolicy.fail.name := by
  constructor
  · intro h
    cases v with
    | string t =>
      have ht : ofName? t = some .fail := by
        unfold actingAs ofValue? at h
        cases hp : ofName? t with
        | none => simp [hp] at h
        | some p => simpa [hp] using h
      have hname := List.find?_some ht
      rw [of_decide_eq_true hname]
    | null | bool | int | float | array | object => cases h
  · rintro rfl
    rw [actingAs, ofValue?, ofName?_name, Option.getD_some]

namespace Conversion

theorem holdsRawBlock_iff {nodes : List Node} :
    holdsRawBlock nodes = true ↔ Node.RawBlockIn nodes := by
  have htag : ∀ n : Node, n.tag = .rawBlock ↔ ∃ format raw, n = .rawBlock format raw := by
    intro n
    cases n <;> simp [Node.tag]
  unfold holdsRawBlock Node.RawBlockIn
  simp only [List.any_eq_true, decide_eq_true_eq, htag, Node.mem_walk_iff_occurs]
  constructor
  · rintro ⟨_, ⟨n, hn, h⟩, format, raw, rfl⟩
    exact ⟨n, hn, format, raw, h⟩
  · rintro ⟨n, hn, format, raw, h⟩
    exact ⟨_, ⟨n, hn, h⟩, format, raw, rfl⟩

/-- A payload that cannot be read fails as it does alone. Of those that can be
read, settings that let raw blocks through convert all that rendering gets
through, and settings that refuse them refuse those with a raw block at any
depth and treat the others in the same way. Blocks that reading drops change
nothing. -/
theorem raw_blocks_are_refused_where_one_is_left (config : Config) (payload : Value) :
    (∀ v, (config.assign (.rawBlocks v)).rawBlocks = .fail ↔ v = .string RawPolicy.fail.name) ∧
    (∀ f, Document.ofPayload payload = .error f →
      ofPayload config payload = .error (.document f)) ∧
    (config.rawBlocks ≠ .fail →
      ((∃ c, ofPayload config payload = .ok c) ↔
        ∃ d, Document.ofPayload payload = .ok d ∧ d.Renders) ∧
      ∀ d, Document.ofPayload payload = .ok d → ¬ d.Renders →
        ofPayload config payload = .error .overflow) ∧
    (config.rawBlocks = .fail → ∀ d, Document.ofPayload payload = .ok d →
      (ofPayload config payload = .error .rawBlock ↔ Node.RawBlockIn d.blocks) ∧
      (¬ Node.RawBlockIn d.blocks →
        ofPayload config payload =
          ofPayload { config with rawBlocks := .passthrough } payload)) ∧
    ofPayload config (withoutDropped payload) = ofPayload config payload := by
  refine ⟨fun v => RawPolicy.actingAs_eq_fail, fun f h => ofPayload_of_error h, ?_, ?_, ?_⟩
  · intro hpolicy
    refine ⟨⟨?_, ?_⟩, ?_⟩
    · rintro ⟨c, hc⟩
      cases h : Document.ofPayload payload with
      | error f =>
        rw [ofPayload_of_error h] at hc
        cases hc
      | ok d =>
        rw [ofPayload_unrefused hpolicy h] at hc
        split at hc
        · exact ⟨d, rfl, ‹_›⟩
        · cases hc
    · rintro ⟨d, h, hrenders⟩
      rw [ofPayload_unrefused hpolicy h, if_pos hrenders]
      exact ⟨_, rfl⟩
    · intro d h hrenders
      rw [ofPayload_unrefused hpolicy h, if_neg hrenders]
  · intro hpolicy d h
    have hpass : ofPayload { config with rawBlocks := .passthrough } payload =
        if d.Renders then .ok (plain config d) else .error .overflow :=
      ofPayload_unrefused (nofun) h
    rw [hpass, ofPayload_of_ok h, ← holdsRawBlock_iff, hpolicy]
    by_cases hraw : holdsRawBlock d.blocks
    · simp [hraw]
    · rw [if_neg fun hfail => hraw hfail.2]
      refine ⟨⟨fun hfail => ?_, fun h => absurd h hraw⟩, fun _ => rfl⟩
      split at hfail <;> cases hfail
  · rw [ofPayload, ofPayload, Document.ofPayload_withoutDropped]

/-- Paragraphs inside each other are read, and have no deck where there are
too many of them. -/
theorem a_document_that_is_read_may_have_no_deck : ¬ ∀ config payload,
    config.rawBlocks ≠ .fail →
      ((∃ c, ofPayload config payload = .ok c) ↔ ∃ d, Document.ofPayload payload = .ok d) := by
  intro h
  have hpolicy : Config.standard.rawBlocks ≠ .fail := by decide
  obtain ⟨hread, hrenders⟩ := Document.paragraphs_overflow (k := 220) (by decide) (by decide)
  obtain ⟨c, hc⟩ := (h Config.standard _ hpolicy).mpr ⟨_, hread⟩
  rw [ofPayload_unrefused hpolicy hread, if_neg hrenders] at hc
  cases hc

/-- A raw block in an item that stands in a quote. -/
def quotedRawBlock (before : List Value) : Value :=
  .array [.object [], .array [Node.record (.styled .quote) (.array [
    Node.record .bullets (.array [.array (before ++ [Node.record (.styled .plain) (.array [
      Node.record .rawBlock (.string [])])])])])]]

/-- As the first block of the item it is refused, and behind another block
it is not. -/
theorem raw_blocks_are_refused_where_one_is_left_quoted :
    ofPayload { Config.standard with rawBlocks := .fail } (quotedRawBlock []) =
      .error .rawBlock ∧
    ∃ c, ofPayload { Config.standard with rawBlocks := .fail }
      (quotedRawBlock [Node.record (.styled .para) (.array [])]) = .ok c := by
  have hfirst : Document.ofPayload (quotedRawBlock []) =
      .ok ⟨[], [.styled .quote [.bullets [[.rawBlock none []]]]]⟩ := rfl
  have hbehind : Document.ofPayload (quotedRawBlock [Node.record (.styled .para) (.array [])]) =
      .ok ⟨[], [.styled .quote [.bullets [[]]]]⟩ := rfl
  have hlaw := fun payload =>
    (raw_blocks_are_refused_where_one_is_left { Config.standard with rawBlocks := .fail }
      payload).2.2.2.1 rfl
  constructor
  · refine (hlaw _ _ hfirst).1.mpr ⟨_, List.mem_singleton_self _, none, [], ?_⟩
    exact .inside (.head _) (.inside (.head _) (.inside (.head _) .here))
  · have hnone : ¬ Node.RawBlockIn [.styled .quote [.bullets [[]]]] := by
      rw [← holdsRawBlock_iff]
      decide
    rw [(hlaw _ _ hbehind).2 hnone]
    exact ⟨_, rfl⟩

end Conversion

end Lectern
