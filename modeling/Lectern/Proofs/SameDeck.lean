-- What a deck shows of its document. A document that is written in its
-- general form and read again may have no language where it had an empty
-- one. Markup, slides and outlines do not tell these two apart, so the way
-- through the general form never changes the deck. It leads to one whenever
-- no pass on it breaks off.
import Lectern.Proofs.OpenCalls

namespace Lectern

open Json (Value)

/-! ## Markup without empty languages -/

/-- An empty language names no environment, so it is written as none is. -/
theorem Markup.codeEnvironment_namedLanguage (language : Option Text) :
    codeEnvironment (Node.namedLanguage language) = codeEnvironment language := by
  rcases language with _ | _ | ⟨c, cs⟩
  · rfl
  · rfl
  · simp [Node.namedLanguage, Option.filter]

namespace Node

theorem boundary_normal (n : Node) : n.normal.boundary = n.boundary := by
  cases n <;> rfl

theorem markups_normals {ns : List Node} (h : ∀ n ∈ ns, n.normal.markup = n.markup) :
    markups (normals ns) = markups ns := by
  rw [markups_eq, markups_eq, normals_eq, List.map_map]
  exact List.map_congr_left h

/-- An empty language leaves no trace in the markup. -/
theorem markup_normal (n : Node) : n.normal.markup = n.markup := by
  induction n with
  | str | space | rule | rawInline | rawBlock => rfl
  | codeBlock language code => simp only [normal, markup, Markup.codeEnvironment_namedLanguage]
  | header level identifier contents ih => simp only [normal, markup, markups_normals ih]
  | styled style contents ih =>
    cases style <;> simp only [normal, markup, markups_normals ih]
  | bullets items _ ih =>
    have hitems : itemMarkups (items.map (List.map normal)) = itemMarkups items := by
      rw [itemMarkups_eq, itemMarkups_eq, List.map_map]
      refine List.map_congr_left fun contents hc => ?_
      rw [← ih contents hc, normal, normals_eq]
      rfl
    simp only [normal, markup, itemNormals_eq, hitems]

/-! ## Depth -/

theorem tag_normal (n : Node) : n.normal.tag = n.tag := by
  cases n <;> rfl

theorem children_normal (n : Node) : n.normal.children = n.children.map normal := by
  cases n <;>
    simp [normal, children, normals_eq, itemNormals_eq, Function.comp_def]

/-- A pass gets through nodes whether or not their languages are named. -/
theorem fits_map_normal {cost : Tag → Nat} {before : Nat} {ns : List Node} :
    Fits cost before (ns.map normal) ↔ Fits cost before ns := by
  induction ns using runInduction generalizing before with
  | nil => rfl
  | cons n ns inside rest =>
    rw [List.map_cons, fits_cons, fits_cons, tag_normal, children_normal, inside, rest]

/-- The nodes inside a node have their records in its record. -/
theorem holds_toRecord {n m : Node} (h : m ∈ n.parts) : Holds n.toRecord m.toRecord := by
  have hrecord : ∀ tag c, IsRecord tag c (record tag c) := fun _ _ => ⟨_, rfl, rfl, rfl⟩
  cases n with
  | str | space | rule | rawInline | rawBlock | codeBlock => simp [parts] at h
  | header level identifier contents =>
    refine .header _ _ (toRecords contents) (hrecord _ _) ?_
    rw [toRecords_eq]
    exact List.mem_map_of_mem h
  | styled style contents =>
    refine .styled style (toRecords contents) (hrecord _ _) ?_
    rw [toRecords_eq]
    exact List.mem_map_of_mem h
  | bullets items =>
    obtain ⟨contents, hi, hm⟩ := List.mem_flatten.mp h
    refine .bullets (itemRecords items) (hrecord _ _) _ [] ?_ .plain (toRecords contents)
      (hrecord _ _) (.inl rfl) ?_
    · rw [itemRecords_eq]
      exact List.mem_map_of_mem hi
    · rw [toRecords_eq]
      exact List.mem_map_of_mem hm

/-- What is written and read again is no higher than reading allows. -/
theorem height_le_of_nestedWithin {depth : Nat} {n : Node} (h : NestedWithin depth n.toRecord) :
    n.height ≤ depth := by
  induction depth generalizing n with
  | zero => exact h.elim
  | succ depth ih => exact height_le_succ.mpr fun m hm => ih (h _ (holds_toRecord hm))

end Node

/-! ## Decks without empty languages -/

namespace Slide

theorem segment_map_normal (nodes : List Node) :
    segment (nodes.map Node.normal) = (segment nodes).map (List.map Node.normal) := by
  have hboundary : Node.boundary ∘ Node.normal = Node.boundary := funext Node.boundary_normal
  rw [segment, segmentBy_map, hboundary, segment]

theorem frame_map_normal (s : Slide) : frame (s.map Node.normal) = s.frame := by
  have hbody : body (s.map Node.normal) = s.body := by
    rw [body, body, ← Node.normals_eq, Node.markups_normals fun n _ => n.markup_normal]
  rw [frame, frame, hbody]

theorem outlines_map_normal (s : Slide) :
    (s.map Node.normal).map Node.outline = s.map Node.outline := by
  rw [List.map_map]
  exact List.map_congr_left fun n _ => n.outline_normal

end Slide

theorem Config.deck_map_normal (config : Config) (slides : List Slide) :
    config.deck (slides.map (List.map Node.normal)) = config.deck slides := by
  simp only [deck, List.flatMap_map, Slide.frame_map_normal]

/-! ## The law -/

namespace Document

/-- The document is not too deep for any pass on the way to its deck: for
writing it, for reading it again, and for rendering it. -/
structure WithinLimit (d : Document) : Prop where
  writes : d.Writes
  reads : ∀ n ∈ d.blocks, n.height ≤ Node.depthLimit
  renders : d.Renders

/-- A document is within the limit if no more nodes than this stand inside each
other. -/
theorem withinLimit_of_height {d : Document} (h : ∀ n ∈ d.blocks, n.height ≤ 109) :
    d.WithinLimit where
  writes := Node.fits_iff.mpr fun n hn =>
    Node.fits_of_height (w := 5) (fun tag => tag.writeCalls_le.trans (by decide)) (by decide)
      (h n hn) (by decide)
  reads n hn := (h n hn).trans (by decide)
  renders := Node.fits_iff.mpr fun n hn =>
    Node.fits_of_height (w := 9) (fun tag => tag.renderCalls_le.trans (by decide)) (by decide)
      (h n hn) (by decide)

theorem toPayload?_eq_some {d : Document} {general : Value} :
    d.toPayload? = some general ↔
      d.Writes ∧ payload (.object d.metadata) (d.blocks.map Node.toRecord) = general := by
  unfold toPayload?
  by_cases h : d.Writes <;> simp [h]

/-- The general form of a document is read as the document without its empty
languages, or it is too deep to be read. -/
theorem ofPayload_general_eq_ok {d e : Document} :
    ofPayload (payload (.object d.metadata) (d.blocks.map Node.toRecord)) = .ok e ↔
      (∀ n ∈ d.blocks, n.height ≤ Node.depthLimit) ∧
        e = ⟨d.metadata, d.blocks.map Node.normal⟩ := by
  have hbuild : (∀ n ∈ d.blocks, n.height ≤ Node.depthLimit) →
      (d.blocks.map Node.toRecord).mapM Node.build = .ok (d.blocks.map Node.normal) :=
    fun h => mapM_map_eq_ok fun n hn => Node.ofRecord_toRecord (h n hn)
  rw [ofPayload_eq_ok]
  constructor
  · rintro ⟨hmetadata, hblocks⟩
    have hheight : ∀ n ∈ d.blocks, n.height ≤ Node.depthLimit := by
      intro n hn
      obtain ⟨m, hm⟩ :=
        Node.exists_mapM_eq_ok.mp ⟨_, hblocks⟩ n.toRecord (List.mem_map_of_mem hn)
      exact Node.height_le_of_nestedWithin (Node.nestedWithin_of_ofRecord hm)
    rw [hbuild hheight] at hblocks
    refine ⟨hheight, ?_⟩
    rw [← hmetadata, Except.ok.inj hblocks]
  · rintro ⟨hheight, rfl⟩
    exact ⟨rfl, hbuild hheight⟩

theorem renders_normal (d : Document) :
    Renders ⟨d.metadata, d.blocks.map Node.normal⟩ ↔ d.Renders := Node.fits_map_normal

end Document

namespace Conversion

/-- The general form of a document has a conversion if the document is too deep
for no pass, and then the deck is that of the document itself: as many slides,
with the same outlines on each, and the same output. The document that is read
is the first one only if no language in that is empty. -/
theorem the_general_form_gives_the_same_deck {config : Config}
    (hpolicy : config.rawBlocks ≠ .fail) (d : Document) :
    ((∃ payload c, d.toPayload? = some payload ∧ ofPayload config payload = .ok c) ↔
      d.WithinLimit) ∧
    ∀ payload c, d.toPayload? = some payload → ofPayload config payload = .ok c →
      c.document.metadata = d.metadata ∧
      (c.document.blocks = d.blocks ↔ ∀ n ∈ d.blocks, n.LanguagesNamed) ∧
      c.slides.length = (Slide.segment d.blocks).length ∧
      c.slides.map (List.map Node.outline) =
        (Slide.segment d.blocks).map (List.map Node.outline) ∧
      config.render? (Slide.segment d.blocks) = some c.output := by
  have hslides := Slide.segment_map_normal d.blocks
  have hconverted : ∀ payload c, d.toPayload? = some payload → ofPayload config payload = .ok c →
      d.WithinLimit ∧ c = plain config ⟨d.metadata, d.blocks.map Node.normal⟩ := by
    intro payload c hpayload hc
    obtain ⟨hwrites, rfl⟩ := Document.toPayload?_eq_some.mp hpayload
    cases hread : Document.ofPayload (Document.payload (.object d.metadata)
        (d.blocks.map Node.toRecord)) with
    | error f =>
      rw [ofPayload_of_error hread] at hc
      cases hc
    | ok e =>
      obtain ⟨hheight, rfl⟩ := Document.ofPayload_general_eq_ok.mp hread
      rw [ofPayload_unrefused hpolicy hread] at hc
      split at hc
      · rename_i hrenders
        exact ⟨⟨hwrites, hheight, d.renders_normal.mp hrenders⟩, (Except.ok.inj hc).symm⟩
      · cases hc
  refine ⟨⟨?_, ?_⟩, ?_⟩
  · rintro ⟨payload, c, hpayload, hc⟩
    exact (hconverted payload c hpayload hc).1
  · intro h
    have hread := Document.ofPayload_general_eq_ok.mpr ⟨h.reads, rfl⟩
    refine ⟨_, plain config ⟨d.metadata, d.blocks.map Node.normal⟩,
      Document.toPayload?_eq_some.mpr ⟨h.writes, rfl⟩, ?_⟩
    rw [ofPayload_unrefused hpolicy hread, if_pos (d.renders_normal.mpr h.renders)]
  · intro payload c hpayload hc
    obtain ⟨hlimit, rfl⟩ := hconverted payload c hpayload hc
    refine ⟨rfl, ?_, ?_, ?_, ?_⟩
    · rw [plain, Node.map_eq_self]
      exact forall₂_congr fun n _ => n.normal_eq_self
    · rw [plain, hslides, List.length_map]
    · rw [plain, hslides, List.map_map]
      exact List.map_congr_left fun s _ => Slide.outlines_map_normal s
    · rw [plain, hslides, config.deck_map_normal, Config.render?,
        if_pos ((Slide.fits_segment d.blocks).mpr hlimit.renders)]

/-- A header, a rule, and a quoted list with a raw block whose format is
empty and with code whose language is. -/
def namelessCode : Document :=
  ⟨[], [.header ⟨2, Nat.two_pos⟩ [] [.str (Text.ofString "a")], .rule,
    .styled .quote [.bullets [[.rawBlock (some []) (Text.ofString "b"),
      .codeBlock (some []) (Text.ofString "c")]]]]⟩

/-- The language is lost on the way, and the deck has both of its slides. -/
theorem the_general_form_gives_the_same_deck_nameless_code :
    ∃ payload c, namelessCode.toPayload? = some payload ∧
      ofPayload Config.standard payload = .ok c ∧
      c.document.blocks ≠ namelessCode.blocks ∧ c.slides.length = 2 ∧
      Config.standard.render? (Slide.segment namelessCode.blocks) = some c.output := by
  have hpolicy : Config.standard.rawBlocks ≠ .fail := by decide
  have hlimit : namelessCode.WithinLimit := Document.withinLimit_of_height (by decide)
  obtain ⟨hconverts, hdeck⟩ := the_general_form_gives_the_same_deck hpolicy namelessCode
  obtain ⟨payload, c, hpayload, hc⟩ := hconverts.mpr hlimit
  obtain ⟨-, hblocks, hlength, -, houtput⟩ := hdeck payload c hpayload hc
  refine ⟨payload, c, hpayload, hc, ?_, hlength, houtput⟩
  intro hsame
  have hnamed := hblocks.mp hsame _ (.tail _ (.tail _ (.head _)))
  rw [← Node.normal_eq_self] at hnamed
  exact absurd hnamed (by decide)

end Conversion

end Lectern
