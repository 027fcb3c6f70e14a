-- What building a record gives, kind by kind, and what is known of a node
-- that a record gave. Later proofs use these laws and not the definitions.
import Mathlib.Data.List.Forall2
import Lectern.Node.Build

namespace Lectern

/-! ## Results that may fail -/

section Results

variable {ε α β : Type}

theorem bind_eq_ok {x : Except ε α} {f : α → Except ε β} {b : β} :
    x >>= f = .ok b ↔ ∃ a, x = .ok a ∧ f a = .ok b := by
  cases x with
  | error e => simp [bind, Except.bind]
  | ok a => simp [bind, Except.bind]

/-- A list of results succeeds when each result does. -/
theorem mapM_eq_ok {f : α → Except ε β} {xs : List α} {ys : List β} :
    xs.mapM f = .ok ys ↔ List.Forall₂ (fun x y => f x = .ok y) xs ys := by
  induction xs generalizing ys with
  | nil => cases ys <;> simp [pure, Except.pure]
  | cons x xs ih =>
    rw [List.mapM_cons, bind_eq_ok]
    cases ys with
    | nil => simp [bind_eq_ok, pure, Except.pure]
    | cons y ys => simp [bind_eq_ok, pure, Except.pure, ih]

theorem mapM_map_eq_ok {γ : Type} {f : β → Except ε γ} {g : α → β} {h : α → γ} {xs : List α}
    (hf : ∀ x ∈ xs, f (g x) = .ok (h x)) : (xs.map g).mapM f = .ok (xs.map h) := by
  rw [mapM_eq_ok, List.forall₂_map_left_iff, List.forall₂_map_right_iff]
  exact List.forall₂_same.mpr hf

/-- Each value of a list of results comes from one of the results. -/
theorem exists_of_mapM_eq_ok {f : α → Except ε β} {xs : List α} {ys : List β}
    (h : xs.mapM f = .ok ys) {y : β} (hy : y ∈ ys) : ∃ x, f x = .ok y := by
  rw [mapM_eq_ok] at h
  induction h with
  | nil => cases hy
  | cons hxy _ ih =>
    rcases List.mem_cons.mp hy with rfl | hy
    · exact ⟨_, hxy⟩
    · exact ih hy

end Results

open Json (Value Fields)

namespace Node

/-! ## Records of a known kind -/

theorem openRecord_record (tag : Tag) (c : Value) :
    openRecord (record tag c) = .ok (tag.name, c) := by
  have h : (contentsField == tagField) = false := by decide
  simp [openRecord, record, Fields.get?, List.lookup_cons, h]

theorem openRecord_bareRecord (tag : Tag) :
    openRecord (bareRecord tag) = .ok (tag.name, .null) := by
  have h : (contentsField == tagField) = false := by decide
  simp [openRecord, bareRecord, Fields.get?, List.lookup_cons, h]

theorem itemBlock?_record (c : Value) :
    itemBlock? (record (.styled .plain) c) = some (.plain, c) := by
  have h : (contentsField == tagField) = false := by decide
  simp [itemBlock?, record, Fields.get?, List.lookup_cons, h]

/-- A record of a known kind is built from its contents. -/
theorem ofRecord_record (depth : Nat) (tag : Tag) (c : Value) :
    ofRecord (depth + 1) (record tag c) = ofContents (fun r => ofRecord depth r) tag c := by
  rw [ofRecord, openRecord_record]
  simp [bind, Except.bind, Tag.ofName?_name]

theorem ofRecord_bareRecord (depth : Nat) (tag : Tag) :
    ofRecord (depth + 1) (bareRecord tag) = ofContents (fun r => ofRecord depth r) tag .null := by
  rw [ofRecord, openRecord_bareRecord]
  simp [bind, Except.bind, Tag.ofName?_name]

/-! ## What is built -/

/-- The contents `c` give a node of a kind. There is a case for each shape
that contents may have. -/
inductive Built (build : Value → Except Fault Node) : Tag → Value → Node → Prop
  | str (t : Text) : Built build .str (.string t) (.str t)
  | space (c : Value) : Built build .space c .space
  | rule (c : Value) : Built build .rule c .rule
  | rawBlock (raw : Text) : Built build .rawBlock (.string raw) (.rawBlock none raw)
  | rawBlockOf (format raw : Text) :
    Built build .rawBlock (.array [.string format, .string raw]) (.rawBlock (some format) raw)
  | rawInline (format raw : Text) :
    Built build .rawInline (.array [.string format, .string raw]) (.rawInline format raw)
  | codeBlock (identifier attributes : Value) (classes : List Text) (code : Text) :
    Built build .codeBlock
      (.array [.array [identifier, .array (classes.map .string), attributes], .string code])
      (.codeBlock (language? classes) code)
  | header (level : Level) (identifier : Text) (more : List Value)
    {records : List Value} {contents : List Node} (hc : records.mapM build = .ok contents) :
    Built build .header
      (.array [.int level.val, .array (.string identifier :: more), .array records])
      (.header level identifier contents)
  | styled (style : Style) {records : List Value} {contents : List Node}
    (hc : records.mapM build = .ok contents) :
    Built build (.styled style) (.array records) (.styled style contents)
  | bullets {items : List Value} {contents : List (List Node)}
    (hc : items.mapM (ofItem build) = .ok contents) :
    Built build .bullets (.array items) (.bullets contents)

section

variable {build : Value → Except Fault Node}

theorem recordsOf_eq_ok {tag : Tag} {c : Value} {records : List Value} :
    recordsOf tag c = .ok records ↔ c = .array records := by
  cases c <;> simp [recordsOf]

theorem textPair?_eq_some {c : Value} {a b : Text} :
    textPair? c = some (a, b) ↔ c = .array [.string a, .string b] := by
  unfold textPair?
  split
  · simp
  · rename_i h
    simp only [reduceCtorEq, false_iff]
    exact fun hc => h a b hc

theorem mapM_text?_eq_some {vs : List Value} {ts : List Text} :
    vs.mapM text? = some ts ↔ vs = ts.map .string := by
  induction vs generalizing ts with
  | nil => cases ts <;> simp
  | cons v vs ih =>
    cases v <;> cases ts <;> simp [List.mapM_cons, text?, Option.bind_eq_some_iff, ih, and_comm]

theorem codeParts?_eq_some {c : Value} {language : Option Text} {code : Text} :
    codeParts? c = some (language, code) ↔ ∃ identifier attributes classes,
      c = .array [.array [identifier, .array (classes.map .string), attributes], .string code] ∧
      language = language? classes := by
  constructor
  · intro h
    unfold codeParts? at h
    split at h
    · obtain ⟨classes, hc, h⟩ := Option.map_eq_some_iff.mp h
      rw [mapM_text?_eq_some] at hc
      cases h
      exact ⟨_, _, classes, by rw [hc], rfl⟩
    · cases h
  · rintro ⟨identifier, attributes, classes, rfl, rfl⟩
    have hc : (classes.map Value.string).mapM text? = some classes := mapM_text?_eq_some.mpr rfl
    simp [codeParts?, hc]

theorem headerParts?_eq_some {c inlines : Value} {level : Int} {identifier : Text} :
    headerParts? c = some (level, identifier, inlines) ↔
      ∃ more, c = .array [.int level, .array (.string identifier :: more), inlines] := by
  constructor
  · intro h
    unfold headerParts? at h
    split at h
    · cases h
      exact ⟨_, rfl⟩
    · cases h
  · rintro ⟨more, rfl⟩
    rfl

/-- Contents give a node if they have one of the shapes of its kind, and
only then. -/
theorem ofContents_eq_ok {tag : Tag} {c : Value} {n : Node} :
    ofContents build tag c = .ok n ↔ Built build tag c n := by
  constructor
  · intro h
    cases tag with
    | str =>
      cases c <;> cases h
      exact .str _
    | space =>
      cases h
      exact .space c
    | rule =>
      cases h
      exact .rule c
    | rawBlock =>
      simp only [ofContents] at h
      split at h
      · cases h
        exact .rawBlock _
      · rename_i hp
        obtain rfl := textPair?_eq_some.mp hp
        cases h
        exact .rawBlockOf _ _
      · cases h
    | rawInline =>
      simp only [ofContents] at h
      split at h
      · rename_i hp
        obtain rfl := textPair?_eq_some.mp hp
        cases h
        exact .rawInline _ _
      · cases h
    | codeBlock =>
      simp only [ofContents] at h
      split at h
      · rename_i hp
        obtain ⟨identifier, attributes, classes, rfl, rfl⟩ := codeParts?_eq_some.mp hp
        cases h
        exact .codeBlock identifier attributes classes _
      · cases h
    | header =>
      simp only [ofContents] at h
      split at h
      · rename_i hp
        obtain ⟨more, rfl⟩ := headerParts?_eq_some.mp hp
        simp only [bind_eq_ok, recordsOf_eq_ok] at h
        obtain ⟨records, rfl, contents, hc, h⟩ := h
        split at h
        · rename_i hl
          obtain rfl := Level.ofInt?_eq_some.mp hl
          cases h
          exact .header _ _ more hc
        · cases h
      · cases h
    | styled style =>
      simp only [ofContents, bind_eq_ok, recordsOf_eq_ok] at h
      obtain ⟨records, rfl, contents, hc, h⟩ := h
      cases h
      exact .styled style hc
    | bullets =>
      simp only [ofContents, bind_eq_ok, recordsOf_eq_ok] at h
      obtain ⟨items, rfl, contents, hc, h⟩ := h
      cases h
      exact .bullets hc
  · intro h
    cases h with
    | str | space | rule | rawBlock | rawBlockOf | rawInline => rfl
    | codeBlock identifier attributes classes code =>
      have hp : codeParts? _ = some (language? classes, code) :=
        codeParts?_eq_some.mpr ⟨identifier, attributes, classes, rfl, rfl⟩
      simp only [ofContents, hp]
    | header level identifier more hc =>
      have hl : Level.ofInt? level.val = some level := Level.ofInt?_eq_some.mpr rfl
      simp only [ofContents, headerParts?, bind_eq_ok, recordsOf_eq_ok, hl]
      exact ⟨_, rfl, _, hc, rfl⟩
    | styled style hc =>
      simp only [ofContents, bind_eq_ok, recordsOf_eq_ok]
      exact ⟨_, rfl, _, hc, rfl⟩
    | bullets hc =>
      simp only [ofContents, bind_eq_ok, recordsOf_eq_ok]
      exact ⟨_, rfl, _, hc, rfl⟩

/-- An item gives nodes if it opens with a block of one of two styles whose
records do. -/
theorem ofItem_eq_ok {item : Value} {contents : List Node} :
    ofItem build item = .ok contents ↔ ∃ block more style records,
      item = .array (block :: more) ∧ itemBlock? block = some (style, .array records) ∧
      records.mapM build = .ok contents := by
  constructor
  · intro h
    unfold ofItem at h
    split at h
    · rename_i style c hb
      obtain ⟨⟨block, count⟩, ho, hb⟩ := Option.bind_eq_some_iff.mp hb
      obtain ⟨more, rfl⟩ : ∃ more, item = .array (block :: more) := by
        unfold openItem? at ho
        split at ho
        · cases ho
          exact ⟨_, rfl⟩
        · cases ho
      simp only [bind_eq_ok, recordsOf_eq_ok] at h
      obtain ⟨records, rfl, hc⟩ := h
      exact ⟨block, more, style, records, rfl, hb, hc⟩
    · cases h
  · rintro ⟨block, more, style, records, rfl, hb, hc⟩
    simp [ofItem, openItem?, hb, recordsOf, bind_eq_ok, hc]

/-! ## The nodes inside -/

/-- The nodes inside a node that have records of their own. The items of a
bullet list have none. -/
def parts : Node → List Node
  | .header _ _ contents => contents
  | .styled _ contents => contents
  | .bullets items => items.flatten
  | _ => []

/-- The nodes inside a node that is built are built. -/
theorem Built.exists_of_mem_parts {tag : Tag} {c : Value} {n : Node} (h : Built build tag c n)
    {m : Node} (hm : m ∈ n.parts) : ∃ r, build r = .ok m := by
  cases h with
  | str | space | rule | rawBlock | rawBlockOf | rawInline | codeBlock => simp [parts] at hm
  | header _ _ _ hc => exact exists_of_mapM_eq_ok hc hm
  | styled _ hc => exact exists_of_mapM_eq_ok hc hm
  | bullets hc =>
    obtain ⟨contents, hi, hm⟩ := List.mem_flatten.mp hm
    obtain ⟨item, hi⟩ := exists_of_mapM_eq_ok hc hi
    obtain ⟨_, _, _, _, _, _, hr⟩ := ofItem_eq_ok.mp hi
    exact exists_of_mapM_eq_ok hr hm

theorem language?_ne_nil (classes : List Text) : language? classes ≠ some [] := by
  cases classes with
  | nil => simp [language?]
  | cons c classes => by_cases hc : c = [] <;> simp [language?, hc]

/-- A code block that is built has no empty language. -/
theorem Built.language_ne_nil {tag : Tag} {c : Value} {n : Node} (h : Built build tag c n)
    (code : Text) : n ≠ .codeBlock (some []) code := by
  intro hn
  cases h with
  | codeBlock _ _ classes => exact language?_ne_nil classes (Node.codeBlock.inj hn).1
  | str | space | rule | rawBlock | rawBlockOf | rawInline | header | styled | bullets => cases hn

end

end Node

end Lectern
