-- The fault that is reported. The reader goes through records from left to
-- right, and looks at a record before the records inside it, at each item of
-- a list when it comes to it, and at the level of a header last. The way is
-- laid out here as a list of looks, without the builder, and the builder
-- reports the first fault on it.
import Lectern.Proofs.RawBlocks
import Lectern.Proofs.RecordGrammar
import Lectern.Proofs.Refusals

namespace Lectern

open Json (Value Fields)

namespace Node

/-! ## Faults of results -/

section Results

variable {ε α β : Type}

/-- The fault of a result, if there is one. -/
def fault? : Except ε α → Option ε
  | .error e => some e
  | .ok _ => none

theorem fault?_eq_some {x : Except ε α} {e : ε} : fault? x = some e ↔ x = .error e := by
  cases x <;> simp [fault?]

/-- What comes after a result adds its own fault, when that is the same for
all values. -/
theorem fault?_bind {x : Except ε α} {f : α → Except ε β} {e : Option ε}
    (h : ∀ a, fault? (f a) = e) : fault? (x >>= f) = (fault? x).or e := by
  cases x with
  | error e' => rfl
  | ok a => exact h a

theorem fault?_mapM (f : α → Except ε β) (xs : List α) :
    fault? (xs.mapM f) = xs.findSome? fun x => fault? (f x) := by
  induction xs with
  | nil => rfl
  | cons x xs ih =>
    rw [List.mapM_cons, List.findSome?_cons, ← ih]
    cases f x with
    | error e => rfl
    | ok y =>
      change fault? (xs.mapM f >>= fun ys => pure (y :: ys)) = fault? (xs.mapM f)
      rw [fault?_bind (e := none) fun ys => rfl, Option.or_none]

theorem findSome?_flatMap (f : α → List β) (g : β → Option ε) (xs : List α) :
    (xs.flatMap f).findSome? g = xs.findSome? fun x => (f x).findSome? g := by
  induction xs with
  | nil => rfl
  | cons x xs ih =>
    rw [List.flatMap_cons, List.findSome?_append, List.findSome?_cons, ih]
    cases (f x).findSome? g <;> rfl

end Results

/-! ## What the reader looks at -/

/-- The name of the kind that a value gives, if it is an object that gives
one. -/
def kindOf? (v : Value) : Option Text :=
  match v with
  | .object fields =>
    match Fields.get? fields tagField with
    | some (.string name) => some name
    | _ => none
  | _ => none

/-- The contents that a value gives, or null. -/
def contentsOf (v : Value) : Value :=
  match v with
  | .object fields => (Fields.get? fields contentsField).getD .null
  | _ => .null

/-- Whether a value is a list of two texts. -/
def isTextPair (c : Value) : Bool := (c matches .array [.string _, .string _])

/-- Whether contents have the shape of their kind. What stands in the
records inside is not looked at. -/
def hasShape (tag : Tag) (c : Value) : Bool :=
  match tag with
  | .str => (c matches .string _)
  | .space | .rule => true
  | .rawBlock => (c matches .string _) || isTextPair c
  | .rawInline => isTextPair c
  | .header => (c matches .array [.int _, .array (.string _ :: _), .array _])
  | .codeBlock =>
    match c with
    | .array [.array [_, .array classes, _], .string _] => classes.all (· matches .string _)
    | _ => false
  | .styled _ | .bullets => (c matches .array _)

/-- The style and the contents of the block that an item opens with. -/
def opening? (item : Value) : Option (Style × Value) :=
  match item with
  | .array (block :: _) =>
    if kindOf? block = some (Tag.styled .plain).name then some (.plain, contentsOf block)
    else if kindOf? block = some (Tag.styled .para).name then some (.para, contentsOf block)
    else none
  | _ => none

/-- A look at one thing. -/
inductive Look
  /-- A record that stands deeper than the reader goes. -/
  | tooDeep
  /-- A record, its kind and the shape of its contents. -/
  | record (v : Value)
  /-- An item of a bullet list. -/
  | item (v : Value)
  /-- The level of a header. -/
  | level (n : Int)

/-- The fault that a look finds. -/
def Look.fault? : Look → Option Fault
  | .tooDeep => some .tooDeep
  | .record v =>
    match kindOf? v with
    | none => some (.notRecord v.kindName)
    | some name =>
      match Tag.ofName? name with
      | none => some (.unknownTag name)
      | some tag => if hasShape tag (contentsOf v) then none else some (.misshapen tag)
  | .item v =>
    match opening? v with
    | none => some (.misshapen .bullets)
    | some (_, .array _) => none
    | some (style, _) => some (.misshapen (.styled style))
  | .level n => if 1 ≤ n then none else some (.misshapen .header)

/-- The records in a value that must be a list. -/
def contentRecords (c : Value) : List Value :=
  match c with
  | .array records => records
  | _ => []

/-- The way of the reader through contents: `way` is the way through a
record in them. -/
def wayInside (way : Value → List Look) (tag : Tag) (c : Value) : List Look :=
  match tag with
  | .styled _ => (contentRecords c).flatMap way
  | .bullets =>
    (contentRecords c).flatMap fun item =>
      .item item ::
        (opening? item).toList.flatMap fun block => (contentRecords block.2).flatMap way
  | .header =>
    match c with
    | .array [.int level, _, inlines] => (contentRecords inlines).flatMap way ++ [.level level]
    | _ => []
  | .str | .space | .rule | .codeBlock | .rawInline | .rawBlock => []

/-- The way of the reader through a record, for a reader that goes `depth`
deep. It is laid out to its end, also behind a fault. -/
def way : Nat → Value → List Look
  | 0, _ => [.tooDeep]
  | depth + 1, v =>
    .record v :: match (kindOf? v).bind Tag.ofName? with
      | some tag => wayInside (fun r => way depth r) tag (contentsOf v)
      | none => []

/-! ## What the builder reports -/

theorem openRecord_eq_kindOf? (v : Value) :
    openRecord v = match kindOf? v with
      | some name => .ok (name, contentsOf v)
      | none => .error (.notRecord v.kindName) := by
  cases v with
  | object fields =>
    simp only [openRecord, kindOf?, contentsOf]
    cases Fields.get? fields tagField with
    | none => rfl
    | some t => cases t <;> rfl
  | null | bool | int | float | string | array => rfl

theorem opening?_eq (item : Value) :
    ((openItem? item).bind fun opened => itemBlock? opened.1) = opening? item := by
  cases item with
  | array blocks =>
    cases blocks with
    | nil => rfl
    | cons block more =>
      simp only [openItem?, Option.bind_some, opening?]
      cases block with
      | object fields =>
        simp only [itemBlock?, kindOf?, contentsOf]
        rcases (Fields.get? fields tagField).eq_none_or_eq_some with ht | ⟨t, ht⟩
        · simp [ht]
        · cases t <;> simp [ht]
      | null | bool | int | float | string | array => rfl
  | null | bool | int | float | string | object => rfl

section

variable {build : Value → Except Fault Node} {way : Value → List Look}

theorem fault?_mapM_build (h : ∀ r, fault? (build r) = (way r).findSome? Look.fault?)
    (records : List Value) :
    fault? (records.mapM build) = (records.flatMap way).findSome? Look.fault? := by
  rw [fault?_mapM, findSome?_flatMap]
  exact congrArg (records.findSome? ·) (funext h)

/-- An item shows its own faults before those of the records in it. -/
theorem fault?_ofItem (h : ∀ r, fault? (build r) = (way r).findSome? Look.fault?) (item : Value) :
    fault? (ofItem build item) =
      (Look.item item :: ((opening? item).toList.flatMap fun block =>
        (contentRecords block.2).flatMap way)).findSome? Look.fault? := by
  rw [ofItem, opening?_eq, List.findSome?_cons, Look.fault?]
  cases opening? item with
  | none => rfl
  | some block =>
    obtain ⟨style, c⟩ := block
    cases c with
    | array records =>
      simp only [recordsOf, contentRecords, Option.toList_some, List.flatMap_cons, List.flatMap_nil,
        List.append_nil]
      exact fault?_mapM_build h records
    | null | bool | int | float | string | object => rfl

/-- The level of a header is looked at behind the records in it. -/
theorem fault?_level (identifier : Text) (level : Int) (contents : List Node) :
    fault? (match Level.ofInt? level with
      | some level => (return .header level identifier contents : Except Fault Node)
      | none => throw (.misshapen .header)) = (Look.level level).fault? := by
  change _ = if 1 ≤ level then none else some (Fault.misshapen .header)
  unfold Level.ofInt?
  by_cases hl : 0 < level
  · rw [dif_pos hl, if_pos (show 1 ≤ level by omega)]
    rfl
  · rw [dif_neg hl, if_neg (show ¬ 1 ≤ level by omega)]
    rfl

theorem isTextPair_eq (c : Value) : isTextPair c = (textPair? c).isSome := by
  simp only [isTextPair, textPair?]
  split <;> simp_all

theorem isSome_mapM_text? (vs : List Value) :
    (vs.mapM text?).isSome = vs.all (· matches .string _) := by
  induction vs with
  | nil => rfl
  | cons v vs ih =>
    rw [List.mapM_cons, List.all_cons, ← ih]
    cases v with
    | string t => cases h : vs.mapM text? <;> simp [text?]
    | null | bool | int | float | array | object => rfl

theorem hasShape_codeBlock (c : Value) : hasShape .codeBlock c = (codeParts? c).isSome := by
  simp only [hasShape, codeParts?]
  split
  · rw [Option.isSome_map, isSome_mapM_text?]
  · simp_all

/-- Contents show the fault of their shape, or the first on the way inside. -/
theorem fault?_ofContents (h : ∀ r, fault? (build r) = (way r).findSome? Look.fault?)
    (tag : Tag) (c : Value) :
    fault? (ofContents build tag c) =
      if hasShape tag c then (wayInside way tag c).findSome? Look.fault?
      else some (.misshapen tag) := by
  cases tag with
  | str => cases c <;> rfl
  | space | rule => rfl
  | rawBlock =>
    cases c with
    | array vs =>
      simp only [ofContents, hasShape, isTextPair_eq, Bool.false_or]
      cases textPair? (.array vs) <;> rfl
    | null | bool | int | float | string | object => rfl
  | rawInline =>
    simp only [ofContents, hasShape, isTextPair_eq]
    cases textPair? c <;> rfl
  | codeBlock =>
    simp only [ofContents, hasShape_codeBlock]
    cases codeParts? c <;> rfl
  | header =>
    simp only [ofContents]
    cases hp : headerParts? c with
    | none =>
      have hshape : hasShape .header c = false := by
        simp only [hasShape]
        split
        · cases hp
        · rfl
      simp only [hshape]
      rfl
    | some parts =>
      obtain ⟨level, identifier, inlines⟩ := parts
      obtain ⟨more, rfl⟩ := headerParts?_eq_some.mp hp
      cases inlines with
      | array records =>
        simp only [recordsOf, hasShape, wayInside, contentRecords, if_true]
        change fault? (records.mapM build >>= _) = _
        -- The fault of the level is the same whatever the records gave.
        rw [List.findSome?_append, List.findSome?_singleton, ← fault?_mapM_build h]
        exact fault?_bind (fault?_level identifier level)
      | null | bool | int | float | string | object => rfl
  | styled style =>
    cases c with
    | array records =>
      simp only [ofContents, recordsOf, hasShape, wayInside, contentRecords, if_true]
      change fault? (records.mapM build >>= _) = _
      rw [fault?_bind (e := none) fun _ => rfl, Option.or_none, fault?_mapM_build h]
    | null | bool | int | float | string | object => rfl
  | bullets =>
    cases c with
    | array items =>
      simp only [ofContents, recordsOf, hasShape, wayInside, contentRecords, if_true]
      change fault? (items.mapM (ofItem build) >>= _) = _
      rw [fault?_bind (e := none) fun _ => rfl, Option.or_none, fault?_mapM, findSome?_flatMap]
      exact congrArg (items.findSome? ·) (funext (fault?_ofItem h))
    | null | bool | int | float | string | object => rfl

end

/-- The builder reports the first fault on the way through a record. -/
theorem fault?_ofRecord (depth : Nat) (v : Value) :
    fault? (ofRecord depth v) = (way depth v).findSome? Look.fault? := by
  induction depth generalizing v with
  | zero => rfl
  | succ depth ih =>
    rw [ofRecord, openRecord_eq_kindOf?, way, List.findSome?_cons, Look.fault?]
    cases kindOf? v with
    | none => rfl
    | some name =>
      simp only [bind, Except.bind, Option.bind_some]
      cases Tag.ofName? name with
      | none => rfl
      | some tag =>
        simp only
        rw [fault?_ofContents ih]
        cases hasShape tag (contentsOf v) <;> rfl

/-! ## What is never looked at -/

/-- A value of the same kind with nothing in it. -/
def hollow : Value → Value
  | .string _ => .string []
  | .array _ => .array []
  | .object _ => .object []
  | v => v

/-- An item with what is looked at in it: the block that it opens with. -/
def shownItem (shown : Value → Value) (item : Value) : Value :=
  match opening? item with
  | some (style, c) => .array [record (.styled style) (mapList shown c)]
  | none => .null

/-- Contents with what is looked at in them. Of the attributes of a header
that is the identifier, and of those of a code block the classes. -/
def shownContents (shown : Value → Value) (tag : Tag) (c : Value) : Value :=
  match tag with
  | .space | .rule => .null
  | .styled _ => mapList shown c
  | .bullets => mapList (shownItem shown) c
  | .header =>
    match c with
    | .array [level, .array (identifier :: _), inlines] =>
      .array [level, .array [identifier], mapList shown inlines]
    | _ => c
  | .codeBlock =>
    match c with
    | .array [.array [_, classes, _], code] => .array [.array [.null, classes, .null], code]
    | _ => c
  | .str | .rawInline | .rawBlock => c

/-- A record with what is looked at in it, for a reader that goes `depth`
deep, and with nothing else. -/
def shown : Nat → Value → Value
  | 0, _ => .null
  | depth + 1, v =>
    match kindOf? v with
    | none => hollow v
    | some name =>
      match Tag.ofName? name with
      | none => .object [(tagField, .string name)]
      | some tag => record tag (shownContents (fun r => shown depth r) tag (contentsOf v))

theorem openRecord_hollow {v : Value} (h : kindOf? v = none) :
    openRecord (hollow v) = openRecord v := by
  rw [openRecord_eq_kindOf? v, h]
  cases v <;> rfl

theorem opening?_record {item c : Value} {style : Style} (h : opening? item = some (style, c))
    (c' : Value) : opening? (.array [record (.styled style) c']) = some (style, c') := by
  have hopens : style = .plain ∨ style = .para := by
    rw [← opening?_eq] at h
    obtain ⟨opened, -, hblock⟩ := Option.bind_eq_some_iff.mp h
    exact (itemBlock?_eq_some.mp hblock).1
  rcases hopens with rfl | rfl <;> rfl

section

variable {build : Value → Except Fault Node} {shown : Value → Value}

theorem ofItem_shownItem (h : ∀ r, build (shown r) = build r) (item : Value) :
    ofItem build (shownItem shown item) = ofItem build item := by
  rw [ofItem, ofItem, opening?_eq, opening?_eq, shownItem]
  cases ho : opening? item with
  | none => rfl
  | some block =>
    obtain ⟨style, c⟩ := block
    simp only [opening?_record ho]
    cases c with
    | array records => exact mapM_map_eq h records
    | null | bool | int | float | string | object => rfl

theorem ofContents_shownContents (h : ∀ r, build (shown r) = build r) (tag : Tag) (c : Value) :
    ofContents build tag (shownContents shown tag c) = ofContents build tag c := by
  cases tag with
  | str | rawInline | rawBlock | space | rule => rfl
  | styled style =>
    cases c with
    | array records =>
      simp only [ofContents, shownContents, mapList, recordsOf, bind, Except.bind, mapM_map_eq h]
    | null | bool | int | float | string | object => rfl
  | bullets =>
    cases c with
    | array items =>
      simp only [ofContents, shownContents, mapList, recordsOf, bind, Except.bind,
        mapM_map_eq (ofItem_shownItem h)]
    | null | bool | int | float | string | object => rfl
  | codeBlock =>
    simp only [shownContents]
    split
    · rename_i identifier classes attributes code
      cases classes <;> cases code <;> rfl
    · rfl
  | header =>
    simp only [shownContents]
    split
    · rename_i level identifier more inlines
      have hparts : headerParts? (.array [level, .array [identifier], mapList shown inlines]) =
          (headerParts? (.array [level, .array (identifier :: more), inlines])).map
            fun parts => (parts.1, parts.2.1, mapList shown parts.2.2) := by
        rw [headerParts?_map (mapList shown)]
        cases level <;> cases identifier <;> rfl
      simp only [ofContents, hparts]
      cases headerParts? (.array [level, .array (identifier :: more), inlines]) with
      | none => rfl
      | some parts =>
        obtain ⟨level, identifier, inlines⟩ := parts
        cases inlines with
        | array records =>
          simp only [Option.map_some, mapList, recordsOf, bind, Except.bind, mapM_map_eq h]
        | null | bool | int | float | string | object => rfl
    · rfl

end

/-- What is never looked at has no part in the node or the fault. -/
theorem ofRecord_shown (depth : Nat) (v : Value) :
    ofRecord depth (shown depth v) = ofRecord depth v := by
  induction depth generalizing v with
  | zero => rfl
  | succ depth ih =>
    rw [shown]
    cases hk : kindOf? v with
    | none =>
      simp only
      rw [ofRecord, ofRecord, openRecord_hollow hk]
    | some name =>
      have hopen : openRecord v = .ok (name, contentsOf v) := by
        rw [openRecord_eq_kindOf?, hk]
      cases htag : Tag.ofName? name with
      | none =>
        simp only [ofRecord, hopen, htag, bind, Except.bind]
        simp [openRecord, Fields.get?, htag]
      | some tag =>
        simp only [htag]
        rw [ofRecord_record, ofContents_shownContents ih, ofRecord, hopen]
        simp only [bind, Except.bind, htag]

/-! ## The law -/

/-- A fault is the first on a way. -/
def FirstFault (way : List Look) (f : Fault) : Prop :=
  ∃ before look after, way = before ++ look :: after ∧ look.fault? = some f ∧
    ∀ l ∈ before, l.fault? = none

/-- A fault is reported as one of the errors that are known. -/
inductive Documented : Fault → Refusal → Prop
  | tooDeep : Documented .tooDeep .malformedInput
  | notRecord (kind : Text) : Documented (.notRecord kind) (.malformedNode kind recordText)
  | unknownTag (name : Text) (h : Tag.ofName? name = none) :
    Documented (.unknownTag name) (.unknownVariant name)
  | misshapen (tag : Tag) : Documented (.misshapen tag) (.malformedNode tag.name (shapeText tag))

theorem firstFault_iff {way : List Look} {f : Fault} :
    FirstFault way f ↔ way.findSome? Look.fault? = some f :=
  List.findSome?_eq_some_iff.symm

theorem documented_of_look {look : Look} {f : Fault} (h : look.fault? = some f) :
    Documented f f.refusal := by
  cases f with
  | tooDeep => exact .tooDeep
  | notRecord kind => exact .notRecord kind
  | misshapen tag => exact .misshapen tag
  | unknownTag name =>
    refine .unknownTag name ?_
    cases look with
    | tooDeep => cases h
    | level n =>
      change (if 1 ≤ n then none else some _) = _ at h
      split at h <;> cases h
    | item v =>
      simp only [Look.fault?] at h
      split at h <;> cases h
    | record v =>
      simp only [Look.fault?] at h
      split at h
      · cases h
      · split at h
        · cases h
          assumption
        · split at h <;> cases h

theorem buildAll_eq_error {records : List Value} {f : Fault} :
    buildAll records = .error f ↔ FirstFault (records.flatMap (way depthLimit)) f := by
  have hbuild : ∀ r, fault? (build r) = (way depthLimit r).findSome? Look.fault? :=
    fault?_ofRecord depthLimit
  rw [firstFault_iff, ← fault?_mapM_build hbuild, fault?_eq_some, buildAll]

end Node

/-- With metadata and records in place, a payload has the fault of its
records. -/
theorem Document.ofPayload_eq_error {metadata : Fields} {records : List Value} {g : Fault} :
    ofPayload (.array [.object metadata, .array records]) = .error g ↔
      ∃ f, g = .node f ∧ Node.buildAll records = .error f := by
  simp only [ofPayload, openPayload, bind, Except.bind]
  cases Node.buildAll records with
  | ok blocks => simp [pure, Except.pure]
  | error f => simp [throw, throwThe, MonadExceptOf.throw, eq_comm]

/-- The builder reports the first fault on its way through the records, as
an error that is known. It reports none when every record is well formed and
keeps to the depth limit, and what it does not look at plays no part. -/
theorem the_first_fault_is_reported (records : List Value) :
    (∀ f, Node.buildAll records = .error f ↔
      Node.FirstFault (records.flatMap (Node.way Node.depthLimit)) f) ∧
    (∀ metadata g, Document.ofPayload (.array [.object metadata, .array records]) = .error g ↔
      ∃ f, g = .node f ∧ Node.FirstFault (records.flatMap (Node.way Node.depthLimit)) f) ∧
    (∀ f, Node.buildAll records = .error f → Node.Documented f f.refusal) ∧
    ((∃ ns, Node.buildAll records = .ok ns) ↔
      ∀ r ∈ records, Node.WellFormed r ∧ Node.NestedWithin Node.depthLimit r) ∧
    Node.buildAll (records.map (Node.shown Node.depthLimit)) = Node.buildAll records := by
  refine ⟨fun f => Node.buildAll_eq_error, ?_, ?_, ?_, ?_⟩
  · intro metadata g
    simp only [← Node.buildAll_eq_error]
    exact Document.ofPayload_eq_error
  · intro f h
    obtain ⟨_, look, _, -, hf, -⟩ := Node.buildAll_eq_error.mp h
    exact Node.documented_of_look hf
  · rw [Node.buildAll, Node.exists_mapM_eq_ok]
    simp only [Node.build, Node.exists_ofRecord_iff]
  · exact Node.mapM_map_eq (Node.ofRecord_shown Node.depthLimit) records

/-- The level of a header is wrong, and so is a record in the header. That
record is reported. -/
example : Node.buildAll [Node.record .header (.array [.int 0, .array [.string []],
    .array [Node.record .str .null]])] = .error (.misshapen .str) := rfl

end Lectern
