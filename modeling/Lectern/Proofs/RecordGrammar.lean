-- The grammar of records. Which values are records of nodes is said here
-- without the builder, shape by shape. The builder accepts a value exactly
-- when the grammar admits it and the records in it do not stand too deep
-- inside each other.
import Lectern.Proofs.Building

namespace Lectern

open Json (Value Fields)

namespace Node

/-! ## The grammar -/

/-- An object whose `t` names this kind and whose `c` is this value. An
object without a `c` has null for it. -/
def IsRecord (tag : Tag) (c v : Value) : Prop :=
  ∃ fields, v = .object fields ∧ Fields.get? fields tagField = some (.string tag.name) ∧
    (Fields.get? fields contentsField).getD .null = c

/-- The styles of a block that may open an item of a bullet list. -/
def OpensItem (style : Style) : Prop := style = .plain ∨ style = .para

mutual

/-- The values that are records of nodes. -/
inductive WellFormed : Value → Prop
  | str {v : Value} (text : Text) (h : IsRecord .str (.string text) v) : WellFormed v
  | space {v c : Value} (h : IsRecord .space c v) : WellFormed v
  | rule {v c : Value} (h : IsRecord .rule c v) : WellFormed v
  | rawInline {v : Value} (format raw : Text)
    (h : IsRecord .rawInline (.array [.string format, .string raw]) v) : WellFormed v
  | rawBlock {v : Value} (raw : Text) (h : IsRecord .rawBlock (.string raw) v) : WellFormed v
  | rawBlockOf {v : Value} (format raw : Text)
    (h : IsRecord .rawBlock (.array [.string format, .string raw]) v) : WellFormed v
  | codeBlock {v : Value} (identifier attributes : Value) (classes : List Text) (code : Text)
    (h : IsRecord .codeBlock
      (.array [.array [identifier, .array (classes.map .string), attributes], .string code]) v) :
    WellFormed v
  | header {v : Value} (level : Int) (identifier : Text) (more records : List Value)
    (h : IsRecord .header
      (.array [.int level, .array (.string identifier :: more), .array records]) v)
    (positive : 1 ≤ level) (inside : ∀ r ∈ records, WellFormed r) : WellFormed v
  | styled {v : Value} (style : Style) (records : List Value)
    (h : IsRecord (.styled style) (.array records) v) (inside : ∀ r ∈ records, WellFormed r) :
    WellFormed v
  | bullets {v : Value} (items : List Value) (h : IsRecord .bullets (.array items) v)
    (inside : ∀ item ∈ items, WellFormedItem item) : WellFormed v

/-- The values that are items of a bullet list. Only the first block counts. -/
inductive WellFormedItem : Value → Prop
  | mk {block : Value} (more : List Value) (style : Style) (records : List Value)
    (h : IsRecord (.styled style) (.array records) block) (opens : OpensItem style)
    (inside : ∀ r ∈ records, WellFormed r) : WellFormedItem (.array (block :: more))

end

/-- The value `r` stands in `v` where a record holds records of its own. -/
inductive Holds (v r : Value) : Prop
  | header (level attributes : Value) (records : List Value)
    (h : IsRecord .header (.array [level, attributes, .array records]) v) (hr : r ∈ records)
  | styled (style : Style) (records : List Value)
    (h : IsRecord (.styled style) (.array records) v) (hr : r ∈ records)
  | bullets (items : List Value) (h : IsRecord .bullets (.array items) v)
    (block : Value) (more : List Value) (hi : .array (block :: more) ∈ items)
    (style : Style) (records : List Value) (hb : IsRecord (.styled style) (.array records) block)
    (opens : OpensItem style) (hr : r ∈ records)

/-- The records in a value stand at most this deep inside each other. -/
def NestedWithin : Nat → Value → Prop
  | 0, _ => False
  | depth + 1, v => ∀ r, Holds v r → NestedWithin depth r

/-! ## Records as the builder opens them -/

theorem tag_name_inj {s t : Tag} (h : s.name = t.name) : s = t := by
  have hs := Tag.ofName?_name s
  rw [h, Tag.ofName?_name t] at hs
  exact (Option.some.inj hs).symm

theorem IsRecord.unique {s t : Tag} {c d v : Value} (h : IsRecord s c v) (k : IsRecord t d v) :
    s = t ∧ c = d := by
  obtain ⟨fields, rfl, hname, hc⟩ := h
  obtain ⟨_, hv, kname, kc⟩ := k
  cases hv
  rw [hname] at kname
  have hst : s.name = t.name := Value.string.inj (Option.some.inj kname)
  exact ⟨tag_name_inj hst, hc.symm.trans kc⟩

theorem openRecord_eq_ok {v c : Value} {name : Text} :
    openRecord v = .ok (name, c) ↔ ∃ fields, v = .object fields ∧
      Fields.get? fields tagField = some (.string name) ∧
      (Fields.get? fields contentsField).getD .null = c := by
  unfold openRecord
  cases v with
  | object fields =>
    simp only
    split
    · rename_i hname
      simp [hname]
    · rename_i hname
      simp only [reduceCtorEq, Value.object.injEq, exists_eq_left', false_iff]
      exact fun h => hname _ h.1
  | null | bool | int | float | string | array => simp

/-- What is built is a record of some kind whose contents give the node. -/
theorem ofRecord_succ_eq_ok {depth : Nat} {v : Value} {n : Node} :
    ofRecord (depth + 1) v = .ok n ↔
      ∃ tag c, IsRecord tag c v ∧ Built (fun r => ofRecord depth r) tag c n := by
  constructor
  · intro h
    rw [ofRecord, bind_eq_ok] at h
    obtain ⟨⟨name, c⟩, hopen, h⟩ := h
    obtain ⟨fields, rfl, hname, hc⟩ := openRecord_eq_ok.mp hopen
    simp only at h
    split at h
    · rename_i tag htag
      obtain rfl := Tag.name_of_ofName? htag
      exact ⟨tag, c, ⟨fields, rfl, hname, hc⟩, ofContents_eq_ok.mp h⟩
    · cases h
  · rintro ⟨tag, c, h, hb⟩
    have hopen : openRecord v = .ok (tag.name, c) := openRecord_eq_ok.mpr h
    rw [ofRecord, hopen]
    simp only [bind, Except.bind, Tag.ofName?_name]
    exact ofContents_eq_ok.mpr hb

theorem itemBlock?_eq_some {block c : Value} {style : Style} :
    itemBlock? block = some (style, c) ↔ OpensItem style ∧ IsRecord (.styled style) c block := by
  have hne : (Tag.styled .para).name ≠ (Tag.styled .plain).name := by decide
  constructor
  · intro h
    unfold itemBlock? at h
    split at h
    · simp only at h
      split at h
      · rename_i hname
        split at h
        · rename_i hplain
          cases h
          exact ⟨.inl rfl, _, rfl, hplain ▸ hname, rfl⟩
        · split at h
          · rename_i hpara
            cases h
            exact ⟨.inr rfl, _, rfl, hpara ▸ hname, rfl⟩
          · cases h
      · cases h
    · cases h
  · rintro ⟨rfl | rfl, fields, rfl, hname, rfl⟩
    · simp [itemBlock?, hname]
    · simp [itemBlock?, hname, hne]

theorem exists_mapM_eq_ok {ε α β : Type} {f : α → Except ε β} {xs : List α} :
    (∃ ys, xs.mapM f = .ok ys) ↔ ∀ x ∈ xs, ∃ y, f x = .ok y := by
  simp only [mapM_eq_ok]
  constructor
  · rintro ⟨ys, h⟩
    induction h with
    | nil => simp
    | cons hxy _ ih => exact List.forall_mem_cons.mpr ⟨⟨_, hxy⟩, ih⟩
  · intro h
    induction xs with
    | nil => exact ⟨[], .nil⟩
    | cons x xs ih =>
      obtain ⟨⟨y, hy⟩, hxs⟩ := List.forall_mem_cons.mp h
      obtain ⟨ys, hys⟩ := ih hxs
      exact ⟨y :: ys, .cons hy hys⟩

/-! ## What is built is well formed -/

/-- One step: if what the builder accepts inside is well formed, so is the
record. -/
theorem wellFormed_of_built {build : Value → Except Fault Node} {tag : Tag} {c v : Value}
    {n : Node} (hv : IsRecord tag c v) (hb : Built build tag c n)
    (inside : ∀ r m, build r = .ok m → WellFormed r) : WellFormed v := by
  have records_inside : ∀ (records : List Value) (contents : List Node),
      records.mapM build = .ok contents → ∀ r ∈ records, WellFormed r := by
    intro records contents hc r hr
    obtain ⟨m, hm⟩ := exists_mapM_eq_ok.mp ⟨contents, hc⟩ r hr
    exact inside r m hm
  cases hb with
  | str text => exact .str text hv
  | space => exact .space hv
  | rule => exact .rule hv
  | rawBlock raw => exact .rawBlock raw hv
  | rawBlockOf format raw => exact .rawBlockOf format raw hv
  | rawInline format raw => exact .rawInline format raw hv
  | codeBlock identifier attributes classes code =>
    exact .codeBlock identifier attributes classes code hv
  | header level identifier more hc =>
    have positive : (1 : Int) ≤ level.val := by exact_mod_cast level.property
    exact .header level.val identifier more _ hv positive (records_inside _ _ hc)
  | styled style hc => exact .styled style _ hv (records_inside _ _ hc)
  | bullets hc =>
    refine .bullets _ hv ?_
    intro item hi
    obtain ⟨contents, hcontents⟩ := exists_mapM_eq_ok.mp ⟨_, hc⟩ item hi
    obtain ⟨block, more, style, records, rfl, hblock, hr⟩ := ofItem_eq_ok.mp hcontents
    obtain ⟨opens, hrecord⟩ := itemBlock?_eq_some.mp hblock
    exact .mk more style records hrecord opens (records_inside _ _ hr)

theorem wellFormed_of_ofRecord {depth : Nat} {v : Value} {n : Node}
    (h : ofRecord depth v = .ok n) : WellFormed v := by
  induction depth generalizing v n with
  | zero => cases h
  | succ depth ih =>
    obtain ⟨tag, c, hv, hb⟩ := ofRecord_succ_eq_ok.mp h
    exact wellFormed_of_built hv hb fun r m hr => ih hr

theorem exists_of_holds {depth : Nat} {v r : Value} {n : Node}
    (h : ofRecord (depth + 1) v = .ok n) (hr : Holds v r) : ∃ m, ofRecord depth r = .ok m := by
  obtain ⟨tag, c, hv, hb⟩ := ofRecord_succ_eq_ok.mp h
  cases hr with
  | header level attributes records hv' hr =>
    obtain ⟨rfl, rfl⟩ := hv.unique hv'
    cases hb with
    | header _ _ _ hc => exact exists_mapM_eq_ok.mp ⟨_, hc⟩ r hr
  | styled style records hv' hr =>
    obtain ⟨rfl, rfl⟩ := hv.unique hv'
    cases hb with
    | styled _ hc => exact exists_mapM_eq_ok.mp ⟨_, hc⟩ r hr
  | bullets items hv' block more hi style records hblock opens hr =>
    obtain ⟨rfl, rfl⟩ := hv.unique hv'
    cases hb with
    | bullets hc =>
      -- The builder opens the item by itself, and finds the same block in it.
      obtain ⟨contents, hcontents⟩ := exists_mapM_eq_ok.mp ⟨_, hc⟩ _ hi
      obtain ⟨block', _, style', records', hitem, hblock', hc⟩ := ofItem_eq_ok.mp hcontents
      obtain ⟨_, hrecord⟩ := itemBlock?_eq_some.mp hblock'
      cases hitem
      obtain ⟨_, hrecords⟩ := hrecord.unique hblock
      cases hrecords
      exact exists_mapM_eq_ok.mp ⟨_, hc⟩ r hr

theorem nestedWithin_of_ofRecord {depth : Nat} {v : Value} {n : Node}
    (h : ofRecord depth v = .ok n) : NestedWithin depth v := by
  induction depth generalizing v n with
  | zero => cases h
  | succ depth ih =>
    intro r hr
    obtain ⟨m, hm⟩ := exists_of_holds h hr
    exact ih hm

/-! ## What is well formed is built -/

/-- One step: if the records that a well-formed record holds are built, so
is the record. -/
theorem exists_built {build : Value → Except Fault Node} {v : Value} (h : WellFormed v)
    (inside : ∀ r, Holds v r → WellFormed r → ∃ m, build r = .ok m) :
    ∃ tag c n, IsRecord tag c v ∧ Built build tag c n := by
  cases h with
  | str text hv => exact ⟨_, _, _, hv, .str text⟩
  | space hv => exact ⟨_, _, _, hv, .space _⟩
  | rule hv => exact ⟨_, _, _, hv, .rule _⟩
  | rawInline format raw hv => exact ⟨_, _, _, hv, .rawInline format raw⟩
  | rawBlock raw hv => exact ⟨_, _, _, hv, .rawBlock raw⟩
  | rawBlockOf format raw hv => exact ⟨_, _, _, hv, .rawBlockOf format raw⟩
  | codeBlock identifier attributes classes code hv =>
    exact ⟨_, _, _, hv, .codeBlock identifier attributes classes code⟩
  | header level identifier more records hv positive wellFormed =>
    obtain ⟨k, rfl⟩ : ∃ k : Level, level = k.val :=
      ⟨⟨level.toNat, by omega⟩, by simp only; omega⟩
    obtain ⟨contents, hc⟩ := exists_mapM_eq_ok.mpr fun r hr =>
      inside r (.header _ _ records hv hr) (wellFormed r hr)
    exact ⟨_, _, _, hv, .header k identifier more hc⟩
  | styled style records hv wellFormed =>
    obtain ⟨contents, hc⟩ := exists_mapM_eq_ok.mpr fun r hr =>
      inside r (.styled style records hv hr) (wellFormed r hr)
    exact ⟨_, _, _, hv, .styled style hc⟩
  | bullets items hv wellFormed =>
    obtain ⟨contents, hc⟩ : ∃ contents, items.mapM (ofItem build) = .ok contents := by
      refine exists_mapM_eq_ok.mpr fun item hi => ?_
      cases wellFormed item hi with
      | @mk block more style records hblock opens wellFormed =>
        obtain ⟨contents, hc⟩ := exists_mapM_eq_ok.mpr fun r hr =>
          inside r (.bullets items hv block more hi style records hblock opens hr)
            (wellFormed r hr)
        exact ⟨contents, ofItem_eq_ok.mpr
          ⟨block, more, style, records, rfl, itemBlock?_eq_some.mpr ⟨opens, hblock⟩, hc⟩⟩
    exact ⟨_, _, _, hv, .bullets hc⟩

theorem exists_ofRecord_of_wellFormed {depth : Nat} {v : Value} (h : WellFormed v)
    (hd : NestedWithin depth v) : ∃ n, ofRecord depth v = .ok n := by
  induction depth generalizing v with
  | zero => exact hd.elim
  | succ depth ih =>
    obtain ⟨tag, c, n, hv, hb⟩ := exists_built h fun r hr wellFormed => ih wellFormed (hd r hr)
    exact ⟨n, ofRecord_succ_eq_ok.mpr ⟨tag, c, hv, hb⟩⟩

/-! ## Depth -/

theorem sizeOf_contents (fields : Fields) :
    sizeOf ((Fields.get? fields contentsField).getD .null) < sizeOf (Value.object fields) := by
  rw [Value.object.sizeOf_spec]
  cases hc : Fields.get? fields contentsField with
  | none =>
    simp only [Option.getD_none, Value.null.sizeOf_spec]
    have : 0 < sizeOf fields := by
      cases fields <;> simp only [List.nil.sizeOf_spec, List.cons.sizeOf_spec] <;> omega
    omega
  | some c =>
    have := Fields.sizeOf_lookup hc
    simp only [Option.getD_some]
    omega

theorem IsRecord.sizeOf_lt {tag : Tag} {c v : Value} (h : IsRecord tag c v) :
    sizeOf c < sizeOf v := by
  obtain ⟨fields, rfl, _, rfl⟩ := h
  exact sizeOf_contents fields

theorem Holds.sizeOf_lt {v r : Value} (h : Holds v r) : sizeOf r < sizeOf v := by
  cases h with
  | header level attributes records hv hr =>
    have := hv.sizeOf_lt
    have := List.sizeOf_lt_of_mem hr
    simp only [Value.array.sizeOf_spec, List.cons.sizeOf_spec] at *
    omega
  | styled style records hv hr =>
    have := hv.sizeOf_lt
    have := List.sizeOf_lt_of_mem hr
    simp only [Value.array.sizeOf_spec] at *
    omega
  | bullets items hv block more hi style records hb _ hr =>
    have := hv.sizeOf_lt
    have := List.sizeOf_lt_of_mem hi
    have := hb.sizeOf_lt
    have := List.sizeOf_lt_of_mem hr
    simp only [Value.array.sizeOf_spec, List.cons.sizeOf_spec] at *
    omega

theorem exists_nestedWithin (v : Value) : ∃ depth, NestedWithin depth v := by
  -- What a value holds is smaller than the value, so its size bounds its depth.
  suffices h : ∀ depth v, sizeOf v ≤ depth → NestedWithin (depth + 1) v from
    ⟨_, h _ v (Nat.le_refl _)⟩
  intro depth
  induction depth with
  | zero =>
    intro v hv r hr
    have := hr.sizeOf_lt
    omega
  | succ depth ih =>
    intro v hv r hr
    have := hr.sizeOf_lt
    exact ih r (by omega)

/-! ## The law -/

/-- Within any depth, what is built is what the grammar admits at this depth. -/
theorem exists_ofRecord_iff {depth : Nat} {v : Value} :
    (∃ n, ofRecord depth v = .ok n) ↔ WellFormed v ∧ NestedWithin depth v := by
  constructor
  · rintro ⟨n, h⟩
    exact ⟨wellFormed_of_ofRecord h, nestedWithin_of_ofRecord h⟩
  · rintro ⟨h, hd⟩
    exact exists_ofRecord_of_wellFormed h hd

/-- A value is built exactly when it is a well-formed record that keeps to
the depth limit. Apart from the limit, nothing well formed is refused. -/
theorem a_value_is_built_iff_the_grammar_admits_it (v : Value) :
    ((∃ n, build v = .ok n) ↔ WellFormed v ∧ NestedWithin depthLimit v) ∧
    (WellFormed v ↔ ∃ depth n, ofRecord depth v = .ok n) := by
  refine ⟨exists_ofRecord_iff, ?_, ?_⟩
  · intro h
    obtain ⟨depth, hd⟩ := exists_nestedWithin v
    exact ⟨depth, exists_ofRecord_of_wellFormed h hd⟩
  · rintro ⟨depth, n, h⟩
    exact wellFormed_of_ofRecord h

end Node

end Lectern
