-- What a document keeps of its payload. Reading a payload and writing it
-- again gives the canonical form of each record, which is defined here on
-- the records alone, unless writing breaks off. Nothing else is lost, and the
-- canonical form is read as the same document.
import Lectern.Proofs.OpenCalls

namespace Lectern

open Json (Value Fields)

namespace Node

/-! ## The canonical form -/

/-- The classes that are kept: the first one, unless it is empty. -/
def firstClass : List Value → List Value
  | .string (c :: cs) :: _ => [.string (c :: cs)]
  | _ => []

mutual

/-- The canonical form of a record, with nothing but its `t` and its `c`. A
value that is no record of a known kind stays as it is. -/
def canon (v : Value) : Value :=
  match v with
  | .object fields =>
    match Fields.get? fields tagField with
    | some (.string name) =>
      match Tag.ofName? name with
      | some tag => canonRecord tag ((Fields.get? fields contentsField).getD .null)
      | none => v
    | _ => v
  | _ => v
termination_by (sizeOf v, 0)
decreasing_by exact .left _ _ (sizeOf_contents fields)

/-- The canonical record of a kind with these contents. -/
def canonRecord (tag : Tag) (c : Value) : Value :=
  match tag, c with
  | .space, _ => bareRecord .space
  | .rule, _ => bareRecord .rule
  | .header, .array [level, .array (identifier :: _), inlines] =>
    record .header
      (.array [level, .array [identifier, .array [], .array []], canonList inlines])
  | .codeBlock, .array [.array [_, .array classes, _], code] =>
    record .codeBlock
      (.array [.array [.string [], .array (firstClass classes), .array []], code])
  | .styled style, c => record (.styled style) (canonList c)
  | .bullets, .array items => record .bullets (.array (canonItems items))
  | tag, c => record tag c
termination_by (sizeOf c, 1)

/-- A list of records, each in its canonical form. -/
def canonList (c : Value) : Value :=
  match c with
  | .array records => .array (canonAll records)
  | _ => c
termination_by (sizeOf c, 0)

/-- The canonical forms of records. -/
def canonAll (records : List Value) : List Value :=
  match records with
  | [] => []
  | v :: rest => canon v :: canonAll rest
termination_by (sizeOf records, 0)

/-- The canonical forms of the items of a bullet list. -/
def canonItems (items : List Value) : List Value :=
  match items with
  | [] => []
  | item :: rest => canonItem item :: canonItems rest
termination_by (sizeOf items, 0)

/-- The canonical form of an item: its first block alone, in the plain style. -/
def canonItem (item : Value) : Value :=
  match item with
  | .array (.object fields :: _) =>
    .array [record (.styled .plain) (canonList ((Fields.get? fields contentsField).getD .null))]
  | _ => item
termination_by (sizeOf item, 0)
decreasing_by
  have := sizeOf_contents fields
  refine .left _ _ ?_
  simp only [Value.array.sizeOf_spec, List.cons.sizeOf_spec]
  omega

end

theorem canonAll_eq (records : List Value) : canonAll records = records.map canon := by
  induction records with
  | nil => rw [canonAll, List.map_nil]
  | cons v records ih => rw [canonAll, ih, List.map_cons]

theorem canonItems_eq (items : List Value) : canonItems items = items.map canonItem := by
  induction items with
  | nil => rw [canonItems, List.map_nil]
  | cons item items ih => rw [canonItems, ih, List.map_cons]

theorem canon_eq {tag : Tag} {c v : Value} (h : IsRecord tag c v) :
    canon v = canonRecord tag c := by
  obtain ⟨fields, rfl, hname, rfl⟩ := h
  rw [canon]
  simp only [hname, Tag.ofName?_name]

theorem canonItem_eq {style : Style} {records more : List Value} {block : Value}
    (h : IsRecord (.styled style) (.array records) block) :
    canonItem (.array (block :: more)) =
      .array [record (.styled .plain) (.array (canonAll records))] := by
  obtain ⟨fields, rfl, _, hc⟩ := h
  rw [canonItem, hc, canonList]

/-! ## Writing what was built -/

theorem classes_language? (classes : List Text) :
    Node.classes (language? classes) = firstClass (classes.map .string) := by
  rcases classes with _ | ⟨_ | ⟨c, cs⟩, classes⟩ <;>
    simp [language?, Node.classes, firstClass]

theorem map_eq_of_mapM_eq_ok {ε α β γ : Type} {f : α → Except ε β} {g : β → γ} {k : α → γ}
    {xs : List α} {ys : List β} (h : xs.mapM f = .ok ys)
    (hf : ∀ x y, f x = .ok y → g y = k x) : ys.map g = xs.map k := by
  rw [mapM_eq_ok] at h
  induction h with
  | nil => rfl
  | cons hxy _ ih => rw [List.map_cons, List.map_cons, hf _ _ hxy, ih]

/-- One step: if the nodes inside are written in canonical form, so is the
node. -/
theorem toRecord_eq_canonRecord {build : Value → Except Fault Node} {tag : Tag} {c : Value}
    {n : Node} (h : Built build tag c n)
    (inside : ∀ r m, build r = .ok m → m.toRecord = canon r) :
    n.toRecord = canonRecord tag c := by
  have records_inside : ∀ (records : List Value) (contents : List Node),
      records.mapM build = .ok contents → toRecords contents = canonAll records := by
    intro records contents hc
    rw [toRecords_eq, canonAll_eq]
    exact map_eq_of_mapM_eq_ok hc inside
  cases h with
  | str text => rw [toRecord, canonRecord] <;> simp
  | space c => rw [toRecord, canonRecord]
  | rule c => rw [toRecord, canonRecord]
  | rawBlock raw => rw [toRecord, canonRecord] <;> simp
  | rawBlockOf format raw => rw [toRecord, canonRecord] <;> simp
  | rawInline format raw => rw [toRecord, canonRecord] <;> simp
  | codeBlock identifier attributes classes code =>
    rw [toRecord, canonRecord, classes_language?]
  | header level identifier more hc =>
    rw [toRecord, canonRecord, canonList, records_inside _ _ hc]
  | styled style hc => rw [toRecord, canonRecord, canonList, records_inside _ _ hc]
  | bullets hc =>
    rw [toRecord, canonRecord, itemRecords_eq, canonItems_eq]
    congr 2
    refine map_eq_of_mapM_eq_ok hc ?_
    intro item contents hcontents
    obtain ⟨block, more, style, records, rfl, hblock, hr⟩ := ofItem_eq_ok.mp hcontents
    rw [canonItem_eq (itemBlock?_eq_some.mp hblock).2, toRecord, records_inside _ _ hr]

theorem toRecord_eq_canon {depth : Nat} {v : Value} {n : Node} (h : ofRecord depth v = .ok n) :
    n.toRecord = canon v := by
  induction depth generalizing v n with
  | zero => cases h
  | succ depth ih =>
    obtain ⟨tag, c, hv, hb⟩ := ofRecord_succ_eq_ok.mp h
    rw [canon_eq hv]
    exact toRecord_eq_canonRecord hb fun r m hr => ih hr

/-- The canonical form gives the same node, at any depth that the record
keeps to. -/
theorem ofRecord_canon {depth : Nat} {v : Value} {n : Node} (h : ofRecord depth v = .ok n) :
    ofRecord depth (canon v) = .ok n := by
  -- The canonical form is what the node writes, so this is the round trip of the node.
  obtain ⟨hheight, hnamed⟩ := height_le_of_ofRecord h
  rw [← toRecord_eq_canon h, ofRecord_toRecord hheight, (normal_eq_self n).mpr hnamed]

theorem canon_canon {v : Value} (h : WellFormed v) : canon (canon v) = canon v := by
  obtain ⟨depth, hd⟩ := exists_nestedWithin v
  obtain ⟨n, hn⟩ := exists_ofRecord_of_wellFormed h hd
  rw [← toRecord_eq_canon (ofRecord_canon hn), toRecord_eq_canon hn]

theorem NestedWithin.canon {depth : Nat} {v : Value} (hd : NestedWithin depth v)
    (h : WellFormed v) : NestedWithin depth (canon v) := by
  obtain ⟨n, hn⟩ := exists_ofRecord_of_wellFormed h hd
  exact nestedWithin_of_ofRecord (ofRecord_canon hn)

end Node

/-! ## Objects without an order -/

/-- Two values that are the same when the order of the fields in each object
does not count. -/
inductive Json.Alike : Value → Value → Prop
  | refl (v : Value) : Alike v v
  | array {vs ws : List Value} (h : List.Forall₂ Alike vs ws) : Alike (.array vs) (.array ws)
  | object {fields gields hields : Fields} (order : fields.Perm gields)
    (names : gields.map Prod.fst = hields.map Prod.fst)
    (values : List.Forall₂ Alike (gields.map Prod.snd) (hields.map Prod.snd)) :
    Alike (.object fields) (.object hields)

theorem Json.alike_array_iff {vs ws : List Value} :
    Alike (.array vs) (.array ws) ↔ List.Forall₂ Alike vs ws := by
  constructor
  · intro h
    cases h with
    | refl => exact List.forall₂_same.mpr fun v _ => .refl v
    | array h => exact h
  · exact .array

namespace Document

/-! ## Payloads -/

/-- A payload that is read is canonical in its general form: the metadata is
as it was and each record has its canonical form. The document is written as
that, unless writing breaks off. The canonical payload is nested no deeper and
is read as the same document, and it is the first payload exactly when each
record was canonical, whether or not the order of fields counts. -/
theorem reading_and_writing_is_canonical {metadata : Fields} {records : List Value}
    {d : Document} (h : ofPayload (payload (.object metadata) records) = .ok d) :
    (d.Writes → d.toPayload? = some (payload (.object metadata) (records.map Node.canon))) ∧
    (¬ d.Writes → d.toPayload? = none) ∧
    ofPayload (payload (.object metadata) (records.map Node.canon)) = .ok d ∧
    (∀ r ∈ records, ∀ depth, Node.NestedWithin depth r →
      Node.NestedWithin depth (Node.canon r)) ∧
    (∀ r ∈ records, Node.canon (Node.canon r) = Node.canon r) ∧
    (payload (.object metadata) (records.map Node.canon) = payload (.object metadata) records ↔
      ∀ r ∈ records, Node.canon r = r) ∧
    (Json.Alike (payload (.object metadata) (records.map Node.canon))
        (payload (.object metadata) records) ↔
      ∀ r ∈ records, Json.Alike (Node.canon r) r) := by
  obtain ⟨rfl, hblocks⟩ := ofPayload_eq_ok.mp h
  have hbuilt : ∀ r ∈ records, ∃ n, Node.build r = .ok n :=
    Node.exists_mapM_eq_ok.mp ⟨_, hblocks⟩
  have hwf : ∀ r ∈ records, Node.WellFormed r := by
    intro r hr
    obtain ⟨n, hn⟩ := hbuilt r hr
    exact Node.wellFormed_of_ofRecord hn
  have hrecords : d.blocks.map Node.toRecord = records.map Node.canon :=
    Node.map_eq_of_mapM_eq_ok hblocks fun r n hn => Node.toRecord_eq_canon hn
  refine ⟨?_, ?_, ?_, ?_, ?_, ?_, ?_⟩
  · intro hwrites
    rw [toPayload?, if_pos hwrites, hrecords]
  · intro hwrites
    rw [toPayload?, if_neg hwrites]
  · refine ofPayload_eq_ok.mpr ⟨rfl, ?_⟩
    rw [mapM_eq_ok, List.forall₂_map_left_iff]
    exact (mapM_eq_ok.mp hblocks).imp fun r n hn => Node.ofRecord_canon hn
  · intro r hr depth hd
    exact hd.canon (hwf r hr)
  · intro r hr
    exact Node.canon_canon (hwf r hr)
  · simp only [payload, Value.array.injEq, List.cons.injEq, and_true, true_and]
    exact Node.map_eq_self
  · rw [payload, payload, Json.alike_array_iff, List.forall₂_cons, List.forall₂_cons,
      Json.alike_array_iff, List.forall₂_map_left_iff, List.forall₂_same]
    constructor
    · rintro ⟨_, h, _⟩
      exact h
    · intro h
      exact ⟨.refl _, h, .nil⟩

/-- A list whose item opens with a paragraph and goes on with a raw block. -/
def looseList : Value :=
  .object [(Text.ofString "id", .null),
    (Node.contentsField, .array [.array [
      Node.record (.styled .para) (.array [Node.record .str (.string (Text.ofString "x"))]),
      Node.record .rawBlock (.string [])]]),
    (Node.tagField, .string Tag.bullets.name)]

/-- The paragraph comes back in the plain style, and nothing else does. -/
theorem reading_and_writing_is_canonical_loose_list :
    ofPayload (payload (.object []) [looseList]) =
      .ok ⟨[], [.bullets [[.str (Text.ofString "x")]]]⟩ ∧
    toPayload? ⟨[], [.bullets [[.str (Text.ofString "x")]]]⟩ =
      some (payload (.object []) [Node.canon looseList]) :=
  have h : ofPayload (payload (.object []) [looseList]) =
      .ok ⟨[], [.bullets [[.str (Text.ofString "x")]]]⟩ := rfl
  ⟨h, (reading_and_writing_is_canonical h).1 (by decide)⟩

/-- Bullet lists around quotes are read, and cannot be written where there are
too many of them. -/
theorem a_document_that_is_read_may_not_be_written : ¬ ∀ metadata records d,
    ofPayload (payload (.object metadata) records) = .ok d →
      d.toPayload? = some (payload (.object metadata) (records.map Node.canon)) := by
  intro h
  have hread : ofPayload (Node.listsAroundQuotes 158 79).payload =
      .ok (ofNode (Node.listsAroundQuotes 158 79)) := by
    refine ofPayload_payload_node ?_ (Node.normal_listsAroundQuotes 158 79)
    rw [Node.height_listsAroundQuotes]
    decide
  have hwritten := h _ _ _ hread
  have hbreaks : ¬ (ofNode (Node.listsAroundQuotes 158 79)).Writes := by
    intro hwrites
    exact absurd (Node.le_of_fits_listsAroundQuotes hwrites) (by decide)
  rw [toPayload?, if_neg hbreaks] at hwritten
  cases hwritten

end Document

end Lectern
