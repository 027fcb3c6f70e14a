-- The laws of writing a node as a record and building it again. Only an
-- empty language is lost on the way: it comes back as no language. What is
-- built has none, so it comes back as it is.
import Lectern.Node.Walk
import Lectern.Proofs.RecordGrammar

namespace Lectern

open Json (Value)

namespace Node

/-! ## The height of a node -/

mutual

/-- How many records stand inside each other when the node is written. The
record of an item does not count. -/
def height : Node → Nat
  | .header _ _ contents => heights contents + 1
  | .styled _ contents => heights contents + 1
  | .bullets items => itemHeights items + 1
  | _ => 1

/-- The greatest height in a run of nodes. -/
def heights : List Node → Nat
  | [] => 0
  | n :: rest => max n.height (heights rest)

/-- The greatest height in the items of a bullet list. -/
def itemHeights : List (List Node) → Nat
  | [] => 0
  | contents :: rest => max (heights contents) (itemHeights rest)

end

theorem heights_le {ns : List Node} {d : Nat} : heights ns ≤ d ↔ ∀ n ∈ ns, n.height ≤ d := by
  induction ns with
  | nil => simp [heights]
  | cons n ns ih => rw [heights, Nat.max_le, ih, List.forall_mem_cons]

theorem itemHeights_le {items : List (List Node)} {d : Nat} :
    itemHeights items ≤ d ↔ ∀ n ∈ items.flatten, n.height ≤ d := by
  induction items with
  | nil => simp [itemHeights]
  | cons contents items ih =>
    rw [itemHeights, Nat.max_le, heights_le, ih, List.flatten_cons, List.forall_mem_append]

theorem height_pos (n : Node) : 0 < n.height := by
  cases n <;> simp [height]

theorem height_le_succ {n : Node} {d : Nat} :
    n.height ≤ d + 1 ↔ ∀ m ∈ n.parts, m.height ≤ d := by
  cases n <;> simp only [height, parts, Nat.add_le_add_iff_right, heights_le, itemHeights_le]
  all_goals simp

/-! ## Named languages -/

/-- A language, unless it is empty. -/
def namedLanguage (language : Option Text) : Option Text := language.filter (!·.isEmpty)

mutual

/-- A node with no language in place of every empty language in it. -/
def normal : Node → Node
  | .codeBlock language code => .codeBlock (namedLanguage language) code
  | .header level identifier contents => .header level identifier (normals contents)
  | .styled style contents => .styled style (normals contents)
  | .bullets items => .bullets (itemNormals items)
  | n => n

/-- Each node of a run without empty languages. -/
def normals : List Node → List Node
  | [] => []
  | n :: rest => n.normal :: normals rest

/-- Each item of a bullet list without empty languages. -/
def itemNormals : List (List Node) → List (List Node)
  | [] => []
  | contents :: rest => normals contents :: itemNormals rest

end

theorem normals_eq (ns : List Node) : normals ns = ns.map normal := by
  induction ns with
  | nil => rfl
  | cons n ns ih => simp [normals, ih]

theorem itemNormals_eq (items : List (List Node)) :
    itemNormals items = items.map (List.map normal) := by
  induction items with
  | nil => rfl
  | cons contents items ih => simp [itemNormals, normals_eq, ih]

/-- An empty language leaves no trace in the outline. -/
theorem outline_normal (n : Node) : n.normal.outline = n.outline := by
  induction n with
  | str | space | rule | rawInline | rawBlock | codeBlock => rfl
  | header level identifier contents ih =>
    simpa [normal, outline, normals_eq, outlines_eq] using ih
  | styled style contents ih => simpa [normal, outline, normals_eq, outlines_eq] using ih
  | bullets items _ ih =>
    simp only [normal, outline, itemNormals_eq, itemOutlines_eq, List.map_map]
    congr 1
    refine List.map_congr_left fun contents hc => ?_
    simpa [normal, normals_eq] using ih contents hc

/-- No code block in the node has an empty language. -/
def LanguagesNamed (n : Node) : Prop := ∀ m ∈ walk [n], ∀ code, m ≠ .codeBlock (some []) code

theorem languagesNamed_iff (n : Node) :
    n.LanguagesNamed ↔ (∀ code, n ≠ .codeBlock (some []) code) ∧ ∀ c ∈ n.children, c.LanguagesNamed :=
  forall_walk_singleton

theorem map_eq_self {α : Type} {f : α → α} {xs : List α} : xs.map f = xs ↔ ∀ x ∈ xs, f x = x := by
  nth_rewrite 2 [← List.map_id xs]
  exact List.map_inj_left

theorem namedLanguage_eq_self (language : Option Text) :
    namedLanguage language = language ↔ language ≠ some [] := by
  rcases language with _ | _ | _ <;> simp [namedLanguage, Option.filter]

/-- A node stays as it is when no language in it is empty, and only then. -/
theorem normal_eq_self (n : Node) : n.normal = n ↔ n.LanguagesNamed := by
  rw [languagesNamed_iff]
  induction n with
  | str | space | rule | rawInline | rawBlock => simp [normal, children]
  | codeBlock language code => simp [normal, children, namedLanguage_eq_self]
  | header level identifier contents ih =>
    simp only [← languagesNamed_iff] at ih
    simpa [normal, children, normals_eq, map_eq_self] using forall₂_congr ih
  | styled style contents ih =>
    simp only [← languagesNamed_iff] at ih
    simpa [normal, children, normals_eq, map_eq_self] using forall₂_congr ih
  | bullets items _ ih =>
    simp only [← languagesNamed_iff, normal, normals_eq, Node.styled.injEq, true_and] at ih
    simpa [normal, children, itemNormals_eq, map_eq_self] using forall₂_congr ih

/-! ## Building what is written -/

theorem classes_eq (language : Option Text) :
    classes language = (namedLanguage language).toList.map .string := by
  rcases language with _ | _ | _ <;> simp [classes, namedLanguage, Option.filter]

theorem language?_namedLanguage (language : Option Text) :
    language? (namedLanguage language).toList = namedLanguage language := by
  rcases language with _ | _ | _ <;> simp [language?, namedLanguage, Option.filter]

/-- One step of the round trip: if the nodes inside come back, the node does. -/
theorem ofRecord_toRecord_of_parts {n : Node} {d : Nat}
    (h : ∀ m ∈ n.parts, ofRecord d m.toRecord = .ok m.normal) :
    ofRecord (d + 1) n.toRecord = .ok n.normal := by
  have hrecords : ∀ ns : List Node, (∀ m ∈ ns, m ∈ n.parts) →
      (toRecords ns).mapM (fun r => ofRecord d r) = .ok (normals ns) := fun ns hns => by
    rw [toRecords_eq, normals_eq]
    exact mapM_map_eq_ok fun m hm => h m (hns m hm)
  cases n with
  | str text => exact (ofRecord_record d _ _).trans (ofContents_eq_ok.mpr (.str text))
  | space => exact (ofRecord_bareRecord d _).trans (ofContents_eq_ok.mpr (.space _))
  | rule => exact (ofRecord_bareRecord d _).trans (ofContents_eq_ok.mpr (.rule _))
  | rawInline format raw =>
    exact (ofRecord_record d _ _).trans (ofContents_eq_ok.mpr (.rawInline format raw))
  | rawBlock format raw =>
    cases format with
    | none => exact (ofRecord_record d _ _).trans (ofContents_eq_ok.mpr (.rawBlock raw))
    | some format =>
      exact (ofRecord_record d _ _).trans (ofContents_eq_ok.mpr (.rawBlockOf format raw))
  | codeBlock language code =>
    have hb := @Built.codeBlock (fun r => ofRecord d r) (.string []) (.array [])
      (namedLanguage language).toList code
    rw [toRecord, ofRecord_record, ofContents_eq_ok, normal, classes_eq]
    rwa [language?_namedLanguage] at hb
  | header level identifier contents =>
    rw [toRecord, ofRecord_record, ofContents_eq_ok, normal]
    exact .header level identifier _ (hrecords _ fun m hm => hm)
  | styled style contents =>
    rw [toRecord, ofRecord_record, ofContents_eq_ok, normal]
    exact .styled style (hrecords _ fun m hm => hm)
  | bullets items =>
    rw [toRecord, ofRecord_record, ofContents_eq_ok, normal, itemRecords_eq, itemNormals_eq]
    refine .bullets (mapM_map_eq_ok fun contents hc => ofItem_eq_ok.mpr ?_)
    rw [← normals_eq]
    exact ⟨_, [], .plain, _, rfl, itemBlock?_record _,
      hrecords contents fun m hm => List.mem_flatten_of_mem hc hm⟩

/-- A node that is written is built again, within any depth that its height
does not pass. -/
theorem ofRecord_toRecord {n : Node} {d : Nat} (h : n.height ≤ d) :
    ofRecord d n.toRecord = .ok n.normal := by
  induction d generalizing n with
  | zero => exact absurd n.height_pos (by omega)
  | succ d ih => exact ofRecord_toRecord_of_parts fun m hm => ih (height_le_succ.mp h m hm)

/-! ## Building anything -/

/-- Without empty languages in its parts, a node has none, or it is a code
block with one. -/
theorem languagesNamed_of_parts {n : Node} (hn : ∀ code, n ≠ .codeBlock (some []) code)
    (h : ∀ m ∈ n.parts, m.LanguagesNamed) : n.LanguagesNamed := by
  have hstyled : ∀ ns : List Node, (∀ m ∈ ns, m.LanguagesNamed) →
      (Node.styled .plain ns).LanguagesNamed := by
    intro ns hns
    rw [languagesNamed_iff]
    exact ⟨nofun, hns⟩
  rw [languagesNamed_iff]
  refine ⟨hn, ?_⟩
  intro c hc
  cases n with
  | str | space | rule | rawInline | rawBlock | codeBlock => simp [children] at hc
  | header | styled => exact h c hc
  | bullets items =>
    obtain ⟨contents, hi, rfl⟩ := List.mem_map.mp hc
    apply hstyled
    intro m hm
    exact h m (List.mem_flatten_of_mem hi hm)

/-- A node that is built is no higher than the depth, and no language in it
is empty. -/
theorem height_le_of_ofRecord {d : Nat} {v : Value} {n : Node} (h : ofRecord d v = .ok n) :
    n.height ≤ d ∧ n.LanguagesNamed := by
  induction d generalizing v n with
  | zero => cases h
  | succ d ih =>
    obtain ⟨tag, c, _, hb⟩ := ofRecord_succ_eq_ok.mp h
    have hparts : ∀ m ∈ n.parts, m.height ≤ d ∧ m.LanguagesNamed := by
      intro m hm
      obtain ⟨r, hr⟩ := hb.exists_of_mem_parts hm
      exact ih hr
    refine ⟨?_, ?_⟩
    · rw [height_le_succ]
      intro m hm
      exact (hparts m hm).1
    · apply languagesNamed_of_parts hb.language_ne_nil
      intro m hm
      exact (hparts m hm).2

/-- The header that a record gives has the level of the record. -/
theorem header_of_build {level : Int} {attributes inlines : Value} {m : Node}
    (h : build (record .header (.array [.int level, attributes, inlines])) = .ok m) :
    ∃ l identifier contents, m = .header l identifier contents ∧ (l.val : Int) = level := by
  rw [build, depthLimit, ofRecord_record, ofContents_eq_ok] at h
  cases h with
  | header l identifier => exact ⟨l, identifier, _, rfl, rfl⟩

/-! ## The law -/

/-- A node that is written and built again comes back, but each empty
language in it comes back as none. So it comes back as it was if no language
in it is empty, and only then. Its outline always stays. What any value
gives has no empty language and no header without a level, and comes back as
it was. -/
theorem building_undoes_writing :
    (∀ n : Node, n.height ≤ depthLimit →
      build n.toRecord = .ok n.normal ∧
      (build n.toRecord = .ok n ↔ n.LanguagesNamed) ∧
      ∀ m, build n.toRecord = .ok m → m.outline = n.outline) ∧
    (∀ v m, build v = .ok m →
      m.LanguagesNamed ∧
      (∀ level identifier contents, .header level identifier contents ∈ walk [m] →
        1 ≤ level.val) ∧
      build m.toRecord = .ok m) ∧
    ∀ level attributes inlines m,
      build (record .header (.array [.int level, attributes, inlines])) = .ok m →
        ∃ l identifier contents, m = .header l identifier contents ∧ (l.val : Int) = level := by
  have hround : ∀ n : Node, n.height ≤ depthLimit → build n.toRecord = .ok n.normal := by
    intro n hn
    exact ofRecord_toRecord hn
  refine ⟨?_, ?_, ?_⟩
  · intro n hn
    rw [hround n hn]
    refine ⟨rfl, ?_, ?_⟩
    · rw [Except.ok.injEq]
      exact normal_eq_self n
    · intro m hm
      rw [← Except.ok.inj hm]
      exact outline_normal n
  · intro v m hv
    obtain ⟨hheight, hnamed⟩ := height_le_of_ofRecord hv
    refine ⟨hnamed, ?_, ?_⟩
    · intro level _ _ _
      exact level.property
    · rw [hround m hheight, (normal_eq_self m).mpr hnamed]
  · intro level attributes inlines m h
    exact header_of_build h

/-- A quote with a code block in a bullet list comes back without the empty
language. -/
theorem building_undoes_writing_quoted_code :
    build (styled .quote [.bullets [[.codeBlock (some []) (Text.ofString "x")]]]).toRecord =
      .ok (.styled .quote [.bullets [[.codeBlock none (Text.ofString "x")]]]) :=
  have h := building_undoes_writing.1
    (.styled .quote [.bullets [[.codeBlock (some []) (Text.ofString "x")]]]) (by decide)
  h.1

end Node

end Lectern
