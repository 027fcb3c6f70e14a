-- Drafts and their problems. Every problem that is reported is there, at the
-- place that it names, and a draft that is refused has at least one. No node
-- and no document is out of reach: each is made from the draft of its fields.
import Lectern.Draft.Check

namespace Lectern.Draft

open Checked (both fail under)

/-! ## Places in a draft -/

/-- A location leads from a draft to a value, or to a field that is missing.
The name of a kind leads on into the same draft, which is of this kind. -/
inductive Leads : Draft → List Step → Option Draft → Prop
  | here (d : Draft) : Leads d [] (some d)
  | field {fields : Fields} {name : Text} {d : Draft} {rest : List Step} {found : Option Draft}
    (h : fields.lookup name = some d) (more : Leads d rest found) :
    Leads (.object fields) (.name name :: rest) found
  | missing {fields : Fields} {name : Text} (h : fields.lookup name = none) :
    Leads (.object fields) [.name name] none
  | index {ds : List Draft} {i : Nat} {d : Draft} {rest : List Step} {found : Option Draft}
    (h : ds[i]? = some d) (more : Leads d rest found) : Leads (.array ds) (.index i :: rest) found
  | kind {fields : Fields} {tag : Tag} {rest : List Step} {found : Option Draft}
    (h : get? fields "tag" = some (.string tag.name)) (more : Leads (.object fields) rest found) :
    Leads (.object fields) (.name tag.name :: rest) found

/-- What a complaint says of a value, or of a field that is missing. -/
def Complaint.Holds : Complaint → Option Draft → Prop
  | .missing, found => found = none
  | .notString, found => ∃ d, found = some d ∧ ∀ t, d ≠ .string t
  | .notInteger, found => ∃ d, found = some d ∧ ∀ n, d ≠ .int n
  | .belowOne, found => ∃ n < 1, found = some (.int n)
  | .wrongTag tag, found => ∃ d, found = some d ∧ d ≠ .string tag.name
  | .notList, found => ∃ d, found = some d ∧ ∀ ds, d ≠ .array ds
  | .notObject, found => ∃ d, found = some d ∧ ∀ fields, d ≠ .object fields
  | .notFields, found =>
    ∃ d, found = some d ∧ (∀ n, d ≠ .node n) ∧ ∀ fields, d ≠ .object fields
  | .noTag, found => ∃ fields, found = some (.object fields) ∧ get? fields "tag" = none
  | .unknownTag shown, found =>
    ∃ fields given, found = some (.object fields) ∧ get? fields "tag" = some given ∧
      given.shown = shown ∧ ∀ tag : Tag, given ≠ .string tag.name
  | .notItem, found =>
    ∃ d, found = some d ∧ (∀ contents, d ≠ .node (.styled .plain contents)) ∧
      ∀ fields, d ≠ .object fields
  | .frozen, _ => False

/-- The problem is there in the draft, at its location. -/
def Problem.IsIn (p : Problem) (d : Draft) : Prop :=
  ∃ found, Leads d p.location found ∧ p.complaint.Holds found

/-! ## What is reported -/

/-- If there is no result then there are problems, and each of them has this
property. -/
def Checked.Reports {α : Type} (c : Checked α) (P : Problem → Prop) : Prop :=
  ∀ ps, c = .error ps → ps ≠ [] ∧ ∀ p ∈ ps, P p

namespace Checked

variable {α β : Type} {P : Problem → Prop}

theorem reports_ok (a : α) : Reports (.ok a) P := nofun

theorem reports_fail {complaint : Complaint} (h : P ⟨complaint, []⟩) :
    Reports (fail complaint : Checked α) P := by
  rintro ps ⟨⟩
  exact ⟨List.cons_ne_nil _ _, List.forall_mem_singleton.mpr h⟩

theorem Reports.map {c : Checked α} (h : c.Reports P) (f : α → β) : Reports (c.map f) P := by
  cases c with
  | ok a => exact reports_ok _
  | error qs =>
    rintro ps ⟨⟩
    exact h _ rfl

theorem Reports.both {c : Checked α} {c' : Checked β} (h : c.Reports P) (h' : c'.Reports P) :
    Reports (Checked.both c c') P := by
  intro ps hps
  cases c with
  | ok a =>
    cases c' with
    | ok b => cases hps
    | error qs =>
      cases hps
      exact h' _ rfl
  | error qs =>
    cases c' with
    | ok b =>
      cases hps
      exact h _ rfl
    | error qs' =>
      cases hps
      obtain ⟨hne, hall⟩ := h _ rfl
      exact ⟨by simp [hne], List.forall_mem_append.mpr ⟨hall, (h' _ rfl).2⟩⟩

/-- The problems inside are those of the value that the step leads to. -/
theorem Reports.under {c : Checked α} {d inside : Draft} {step : Step}
    (hstep : ∀ rest found, Leads inside rest found → Leads d (step :: rest) found)
    (h : c.Reports (Problem.IsIn · inside)) :
    Reports (Checked.under step c) (Problem.IsIn · d) := by
  cases c with
  | ok a => exact reports_ok _
  | error qs =>
    rintro ps ⟨⟩
    obtain ⟨hne, hall⟩ := h _ rfl
    refine ⟨by simpa using hne, fun p hp => ?_⟩
    obtain ⟨q, hq, rfl⟩ := List.mem_map.mp hp
    obtain ⟨found, hleads, hholds⟩ := hall q hq
    exact ⟨found, hstep _ _ hleads, hholds⟩

end Checked

open Checked (Reports reports_ok reports_fail)

/-! ## Single fields -/

section

variable {fields : Fields} {name : String} {α : Type}

/-- A value of a field that is refused is reported at the field. -/
theorem reports_field {d : Draft} {c : Checked α} (h : get? fields name = some d)
    (hc : c.Reports (Problem.IsIn · d)) :
    (under (.field name) c).Reports (Problem.IsIn · (.object fields)) :=
  hc.under fun _ _ more => .field h more

/-- A value that is refused for what it is. -/
theorem reports_fail_here {d : Draft} {complaint : Complaint} (h : complaint.Holds (some d)) :
    (fail complaint : Checked α).Reports (Problem.IsIn · d) :=
  reports_fail ⟨_, .here d, h⟩

theorem reports_missing (h : get? fields name = none) :
    (under (.field name) (fail .missing) : Checked α).Reports
      (Problem.IsIn · (.object fields)) := by
  rintro ps ⟨⟩
  exact ⟨List.cons_ne_nil _ _, List.forall_mem_singleton.mpr ⟨none, .missing h, rfl⟩⟩

theorem reports_textField : (textField fields name).Reports (Problem.IsIn · (.object fields)) := by
  unfold textField
  split
  · exact reports_missing ‹_›
  · exact reports_ok _
  · rename_i d hnot h
    exact reports_field h (reports_fail_here ⟨_, rfl, hnot⟩)

theorem reports_textFieldOr {otherwise : Text} :
    (textFieldOr otherwise fields name).Reports (Problem.IsIn · (.object fields)) := by
  unfold textFieldOr
  split
  · exact reports_ok _
  · exact reports_textField

theorem reports_optionalTextField :
    (optionalTextField fields name).Reports (Problem.IsIn · (.object fields)) := by
  unfold optionalTextField
  split
  · exact reports_ok _
  · exact reports_ok _
  · exact reports_textField.map _

theorem reports_tagField {tag : Tag} :
    (tagField tag fields).Reports (Problem.IsIn · (.object fields)) := by
  unfold tagField
  split
  · exact reports_ok _
  · rename_i t h
    split
    · exact reports_ok _
    · rename_i hne
      exact reports_field h (reports_fail_here ⟨_, rfl, fun ht => hne (by simpa using ht)⟩)
  · rename_i d hnot h
    exact reports_field h (reports_fail_here ⟨_, rfl, hnot _⟩)

theorem reports_levelField : (levelField fields).Reports (Problem.IsIn · (.object fields)) := by
  unfold levelField
  split
  · exact reports_missing ‹_›
  · rename_i n h
    split
    · exact reports_ok _
    · rename_i hnone
      have hlow : ¬ 0 < n := by
        intro hpos
        rw [Level.ofInt?, dif_pos hpos] at hnone
        cases hnone
      exact reports_field h (reports_fail_here ⟨n, by omega, rfl⟩)
  · rename_i d hnot h
    exact reports_field h (reports_fail_here ⟨_, rfl, hnot⟩)

end

/-! ## Lists -/

section

variable {α : Type} {f : Draft → Checked α}

/-- What is made of each draft of a list, of which the first has this index. -/
def each (f : Draft → Checked α) (i : Nat) : List Draft → Checked (List α)
  | [] => .ok []
  | d :: rest => (both (under (.index i) (f d)) (each f (i + 1) rest)).map fun p => p.1 :: p.2

/-- What is made of each draft in a field. -/
def eachInField (f : Draft → Checked α) (fields : Fields) (name : String) : Checked (List α) :=
  match get? fields name with
  | none => .ok []
  | some (.array ds) => under (.field name) (each f 0 ds)
  | some _ => under (.field name) (fail .notList)

theorem toNodes_eq (i : Nat) (ds : List Draft) : toNodes i ds = each toNode i ds := by
  induction ds generalizing i with
  | nil => rw [toNodes, each]
  | cons d ds ih => rw [toNodes, each, ih]

theorem toItems_eq (i : Nat) (ds : List Draft) : toItems i ds = each toItem i ds := by
  induction ds generalizing i with
  | nil => rw [toItems, each]
  | cons d ds ih => rw [toItems, each, ih]

theorem nodesField_eq (fields : Fields) (name : String) :
    nodesField fields name = eachInField toNode fields name := by
  rw [nodesField, eachInField]
  split <;> simp_all [toNodes_eq]

theorem itemsField_eq (fields : Fields) (name : String) :
    itemsField fields name = eachInField toItem fields name := by
  rw [itemsField, eachInField]
  split <;> simp_all [toItems_eq]

/-- The drafts behind the first ones of a list report what is in the list. -/
theorem reports_each {ds : List Draft} (before : List Draft)
    (h : ∀ d ∈ ds, (f d).Reports (Problem.IsIn · d)) :
    (each f before.length ds).Reports (Problem.IsIn · (.array (before ++ ds))) := by
  induction ds generalizing before with
  | nil => exact reports_ok _
  | cons d ds ih =>
    obtain ⟨hd, hds⟩ := List.forall_mem_cons.mp h
    have hplace : (before ++ d :: ds)[before.length]? = some d := by simp
    have hrest := ih (before ++ [d]) hds
    rw [List.length_append, List.length_singleton, List.append_assoc, List.singleton_append]
      at hrest
    exact ((hd.under fun _ _ more => .index hplace more).both hrest).map _

theorem reports_eachInField {fields : Fields} {name : String}
    (h : ∀ d, sizeOf d < sizeOf fields → (f d).Reports (Problem.IsIn · d)) :
    (eachInField f fields name).Reports (Problem.IsIn · (.object fields)) := by
  unfold eachInField
  split
  · exact reports_ok _
  · rename_i ds hds
    refine reports_field hds (reports_each [] fun d hd => h d ?_)
    have harray := sizeOf_get? hds
    have hitem := List.sizeOf_lt_of_mem hd
    rw [Draft.array.sizeOf_spec] at harray
    omega
  · rename_i d hnot hd
    exact reports_field hd (reports_fail_here ⟨_, rfl, hnot⟩)

end

/-! ## Nodes -/

section

variable {fields : Fields}
  (h : ∀ d, sizeOf d < sizeOf fields → (toNode d).Reports (Problem.IsIn · d))

include h

theorem reports_item {d : Draft} (hsize : sizeOf d < sizeOf fields) :
    (toItem d).Reports (Problem.IsIn · d) := by
  unfold toItem
  split
  · exact reports_ok _
  · rename_i inside
    have hfields : ∀ d, sizeOf d < sizeOf inside → (toNode d).Reports (Problem.IsIn · d) := by
      intro d hd
      rw [Draft.object.sizeOf_spec] at hsize
      exact h d (by omega)
    rw [nodesField_eq]
    exact ((reports_eachInField hfields).both reports_tagField).map _
  · rename_i d hnode hobject
    exact reports_fail_here ⟨_, rfl, hnode, hobject⟩

/-- Fields of a kind report what is in them, if the nodes in them do. -/
theorem reports_ofFields (tag : Tag) :
    (ofFields tag fields).Reports (Problem.IsIn · (.object fields)) := by
  cases tag with
  | str =>
    rw [ofFields]
    exact (reports_tagField.both reports_textField).map _
  | space | rule =>
    rw [ofFields]
    exact reports_tagField.map _
  | rawInline =>
    rw [ofFields]
    exact (reports_tagField.both (reports_textField.both reports_textField)).map _
  | rawBlock | codeBlock =>
    rw [ofFields]
    exact (reports_tagField.both (reports_optionalTextField.both reports_textField)).map _
  | header =>
    rw [ofFields, nodesField_eq]
    exact ((reports_eachInField h).both
      (reports_tagField.both (reports_levelField.both reports_textFieldOr))).map _
  | styled style =>
    rw [ofFields, nodesField_eq]
    exact ((reports_eachInField h).both reports_tagField).map _
  | bullets =>
    rw [ofFields, itemsField_eq]
    exact (reports_tagField.both (reports_eachInField fun d hd => reports_item h hd)).map _

end

/-- A draft that is refused has problems, and each problem is in the draft, at
its location. -/
theorem every_problem_is_in_the_draft (d : Draft) : (toNode d).Reports (Problem.IsIn · d) := by
  induction hsize : sizeOf d using Nat.strongRecOn generalizing d with
  | ind n ih =>
    subst hsize
    unfold toNode
    split
    · exact reports_ok _
    · rename_i fields
      split
      · rename_i hnone
        exact reports_fail_here ⟨fields, rfl, hnone⟩
      · rename_i given hgiven
        have hinside : ∀ d, sizeOf d < sizeOf fields → (toNode d).Reports (Problem.IsIn · d) := by
          intro d hd
          refine ih (sizeOf d) ?_ d rfl
          rw [Draft.object.sizeOf_spec]
          omega
        dsimp only
        split
        · rename_i tag htag
          split at htag
          · rename_i name
            obtain rfl := Tag.name_of_ofName? htag
            exact (reports_ofFields hinside tag).under fun _ _ more => .kind hgiven more
          · cases htag
        · rename_i hunknown
          refine reports_fail_here ⟨fields, given, rfl, hgiven, rfl, fun tag htag => ?_⟩
          subst htag
          cases hunknown.symm.trans (Tag.ofName?_name tag)
    · rename_i d hnode hobject
      exact reports_fail_here ⟨_, rfl, hnode, hobject⟩

/-- A slide is refused for problems that are in its fields. -/
theorem every_problem_is_in_the_slide (fields : Fields) :
    (toSlide fields).Reports (Problem.IsIn · (.object fields)) := by
  rw [toSlide, nodesField_eq]
  exact reports_eachInField fun d _ => every_problem_is_in_the_draft d

/-- A document is refused for problems that are in its fields. -/
theorem every_problem_is_in_the_document (fields : Fields) :
    (toDocument fields).Reports (Problem.IsIn · (.object fields)) := by
  rw [toDocument, nodesField_eq]
  refine (Reports.both ?_ (reports_eachInField fun d _ => every_problem_is_in_the_draft d)).map _
  split
  · exact reports_ok _
  · exact reports_ok _
  · rename_i d hnot hd
    exact reports_field hd (reports_fail_here ⟨_, rfl, hnot⟩)

/-! ## Every node from its fields -/

/-- Fields with these names. -/
def named (fields : List (String × Draft)) : Fields :=
  fields.map fun p => (Text.ofString p.1, p.2)

theorem get?_named (fields : List (String × Draft)) (name : String) :
    get? (named fields) name = fields.lookup name := by
  unfold get? named
  induction fields with
  | nil => rfl
  | cons p fields ih =>
    have hname : (Text.ofString name == Text.ofString p.1) = (name == p.1) := by
      rw [Bool.eq_iff_iff, beq_iff_eq, beq_iff_eq, Text.ofString_inj]
    rw [List.map_cons, List.lookup_cons, List.lookup_cons, hname, ih]

/-- The fields of a node of this kind. -/
def fieldsOf (tag : Tag) (fields : List (String × Draft)) : Fields :=
  named (("tag", .string tag.name) :: fields)

/-- A text that may be missing. -/
def optionalText : Option Text → Draft
  | some t => .string t
  | none => .null

mutual

/-- The draft of a node, with all of its fields. -/
def ofNode : Node → Draft
  | .str t => .object (fieldsOf .str [("text", .string t)])
  | .space => .object (fieldsOf .space [])
  | .rule => .object (fieldsOf .rule [])
  | .rawInline format raw =>
    .object (fieldsOf .rawInline [("format", .string format), ("raw", .string raw)])
  | .rawBlock format raw =>
    .object (fieldsOf .rawBlock [("format", optionalText format), ("raw", .string raw)])
  | .codeBlock language code =>
    .object (fieldsOf .codeBlock [("language", optionalText language), ("code", .string code)])
  | .header level identifier contents =>
    .object (fieldsOf .header [("contents", .array (ofNodes contents)), ("level", .int level.val),
      ("identifier", .string identifier)])
  | .styled style contents =>
    .object (fieldsOf (.styled style) [("contents", .array (ofNodes contents))])
  | .bullets items => .object (fieldsOf .bullets [("items", .array (ofItems items))])

/-- The drafts of a run of nodes. -/
def ofNodes : List Node → List Draft
  | [] => []
  | n :: rest => ofNode n :: ofNodes rest

/-- The drafts of the items of a bullet list, each a node in the plain style. -/
def ofItems : List (List Node) → List Draft
  | [] => []
  | contents :: rest =>
    .object (fieldsOf (.styled .plain) [("contents", .array (ofNodes contents))]) :: ofItems rest

end

theorem ofNodes_eq (ns : List Node) : ofNodes ns = ns.map ofNode := by
  induction ns with
  | nil => rfl
  | cons n ns ih => rw [ofNodes, ih, List.map_cons]

theorem ofItems_eq (items : List (List Node)) :
    ofItems items = items.map fun contents => ofNode (.styled .plain contents) := by
  induction items with
  | nil => rfl
  | cons contents items ih => rw [ofItems, ih, List.map_cons, ofNode]

section

variable {tag : Tag} {fields : List (String × Draft)}

theorem get?_fieldsOf (name : String) :
    get? (fieldsOf tag fields) name = (("tag", .string tag.name) :: fields).lookup name :=
  get?_named _ name

theorem tagField_fieldsOf : tagField tag (fieldsOf tag fields) = .ok () := by
  have h : get? (fieldsOf tag fields) "tag" = some (.string tag.name) := get?_fieldsOf "tag"
  simp only [tagField, h, if_true]

theorem toNode_fieldsOf :
    toNode (.object (fieldsOf tag fields)) =
      under (.name tag.name) (ofFields tag (fieldsOf tag fields)) := by
  have h : get? (fieldsOf tag fields) "tag" = some (.string tag.name) := get?_fieldsOf "tag"
  rw [toNode]
  simp only [h, Tag.ofName?_name]

end

theorem each_map {α : Type} {f : Draft → Checked α} {g : α → Draft} {xs : List α}
    (h : ∀ x ∈ xs, f (g x) = .ok x) (i : Nat) : each f i (xs.map g) = .ok xs := by
  induction xs generalizing i with
  | nil => rfl
  | cons x xs ih =>
    obtain ⟨hx, hxs⟩ := List.forall_mem_cons.mp h
    rw [List.map_cons, each, hx, ih hxs]
    rfl


theorem eachInField_map {α : Type} {f : Draft → Checked α} {g : α → Draft} {xs : List α}
    {fields : Fields} {name : String} (hfield : get? fields name = some (.array (xs.map g)))
    (h : ∀ x ∈ xs, f (g x) = .ok x) : eachInField f fields name = .ok xs := by
  simp only [eachInField, hfield, each_map h]
  rfl

theorem levelField_of_int {fields : Fields} {level : Level}
    (hfield : get? fields "level" = some (.int level.val)) : levelField fields = .ok level := by
  have hlevel : Level.ofInt? level.val = some level := Level.ofInt?_eq_some.mpr rfl
  simp only [levelField, hfield, hlevel]
  rfl

/-- Every node is made from the draft of its fields. -/
theorem toNode_ofNode (n : Node) : toNode (ofNode n) = .ok n := by
  have hmade : ∀ {tag fields} {n : Node}, ofFields tag (fieldsOf tag fields) = .ok n →
      toNode (.object (fieldsOf tag fields)) = .ok n := by
    intro tag fields n h
    rw [toNode_fieldsOf, h]
    rfl
  induction n with
  | space | rule =>
    refine hmade ?_
    rw [ofFields, tagField_fieldsOf]
    rfl
  | str | rawInline =>
    refine hmade ?_
    rw [ofFields, tagField_fieldsOf]
    simp only [textField, get?_fieldsOf]
    rfl
  | rawBlock text | codeBlock text =>
    refine hmade ?_
    rw [ofFields, tagField_fieldsOf]
    simp only [optionalTextField, textField, get?_fieldsOf]
    cases text <;> rfl
  | header level identifier contents ih =>
    refine hmade ?_
    rw [ofFields, tagField_fieldsOf, nodesField_eq, ofNodes_eq,
      eachInField_map (get?_fieldsOf "contents") ih, levelField_of_int (get?_fieldsOf "level")]
    simp only [textFieldOr, textField, get?_fieldsOf]
    rfl
  | styled style contents ih =>
    refine hmade ?_
    rw [ofFields, tagField_fieldsOf, nodesField_eq, ofNodes_eq,
      eachInField_map (get?_fieldsOf "contents") ih]
    rfl
  | bullets items ih _ =>
    have hitem : ∀ contents ∈ items, toItem (ofNode (.styled .plain contents)) = .ok contents := by
      intro contents h
      rw [ofNode, toItem, tagField_fieldsOf, nodesField_eq, ofNodes_eq,
        eachInField_map (get?_fieldsOf "contents") (ih contents h)]
      rfl
    refine hmade ?_
    rw [ofFields, tagField_fieldsOf, itemsField_eq, ofItems_eq,
      eachInField_map (get?_fieldsOf "items") hitem]
    rfl

/-! ## Every document from its fields -/

mutual

/-- JSON data as a draft. -/
def ofValue : Json.Value → Draft
  | .null => .null
  | .bool b => .bool b
  | .int n => .int n
  | .float x => .float x
  | .string t => .string t
  | .array items => .array (ofItemValues items)
  | .object fields => .object (ofFieldValues fields)

/-- The items of a list of JSON data as drafts. -/
def ofItemValues : List Json.Value → List Draft
  | [] => []
  | v :: rest => ofValue v :: ofItemValues rest

/-- Fields of JSON data as drafts. -/
def ofFieldValues : Json.Fields → Fields
  | [] => []
  | field :: rest => (field.1, ofValue field.2) :: ofFieldValues rest

end

mutual

theorem toValue_ofValue : (v : Json.Value) → toValue (ofValue v) = v
  | .null | .bool _ | .int _ | .float _ | .string _ => rfl
  | .array items => by rw [ofValue, toValue, itemValues_ofItemValues items]
  | .object fields => by rw [ofValue, toValue, fieldValues_ofFieldValues fields]

theorem itemValues_ofItemValues : (vs : List Json.Value) → itemValues (ofItemValues vs) = vs
  | [] => rfl
  | v :: vs => by rw [ofItemValues, itemValues, toValue_ofValue v, itemValues_ofItemValues vs]

theorem fieldValues_ofFieldValues :
    (fields : Json.Fields) → fieldValues (ofFieldValues fields) = fields
  | [] => rfl
  | (name, v) :: fields => by
    rw [ofFieldValues, fieldValues, toValue_ofValue v, fieldValues_ofFieldValues fields]

end

/-- The fields of a document. -/
def ofDocument (d : Document) : Fields :=
  named [("meta", .object (ofFieldValues d.metadata)), ("tokens", .array (ofNodes d.blocks))]

/-- Every document is made from its fields. -/
theorem toDocument_ofDocument (d : Document) : toDocument (ofDocument d) = .ok d := by
  have hmetadata : get? (ofDocument d) "meta" = some (.object (ofFieldValues d.metadata)) :=
    get?_named _ "meta"
  have hblocks : get? (ofDocument d) "tokens" = some (.array (d.blocks.map ofNode)) :=
    ofNodes_eq d.blocks ▸ get?_named _ "tokens"
  rw [toDocument, nodesField_eq, eachInField_map hblocks fun n _ => toNode_ofNode n]
  simp only [hmetadata, fieldValues_ofFieldValues]
  rfl

end Lectern.Draft
