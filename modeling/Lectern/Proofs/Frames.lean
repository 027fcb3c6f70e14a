-- The frames of a deck can be read back from its text. The markup of a node
-- whose texts have no backslash is clear, so the only marks in a deck are the
-- lines around its slides, and to cut the text at its marks gives the bodies
-- of the slides.
import Lectern.Proofs.Capitals
import Lectern.Proofs.Marks
import Lectern.Proofs.RawBlocks
import Lectern.Proofs.Segmentation
import Lectern.Proofs.Writing

namespace Lectern

namespace Node

open Text Markup

/-! ## Nodes without marks -/

/-- The node itself has no backslash, and its language is not of blanks. -/
structure Plain (n : Node) : Prop where
  text : ∀ t ∈ n.ownText?, CodePoint.backslash ∉ t
  language : ∀ l ∈ n.ownLanguage?, CodePoint.backslash ∉ l ∧ (l = [] ∨ ∃ c ∈ l, ¬ c.isBlank)

instance (n : Node) : Decidable n.Plain :=
  decidable_of_iff ((∀ t ∈ n.ownText?, CodePoint.backslash ∉ t) ∧
      ∀ l ∈ n.ownLanguage?, CodePoint.backslash ∉ l ∧ (l = [] ∨ ∃ c ∈ l, ¬ c.isBlank))
    ⟨fun ⟨ht, hl⟩ => ⟨ht, hl⟩, fun ⟨ht, hl⟩ => ⟨ht, hl⟩⟩

theorem foreign_upper {l : Text} (hb : CodePoint.backslash ∉ l) (hs : ∃ c ∈ l, ¬ c.isBlank) :
    l.upper.Foreign where
  noBackslash := by
    refine not_mem_upper ?_ hb
    unfold CodePoint.IsCapital
    decide
  solid := exists_not_blank_upper hs
  first := by
    intro hfirst
    obtain ⟨c, -, hc⟩ := List.mem_flatMap.mp (List.mem_of_mem_head? hfirst)
    exact CodePoint.not_isSmallLetter_of_mem_upper hc ⟨by decide, by decide⟩

theorem foreign_codeEnvironment {language : Option Text}
    (h : ∀ l ∈ language, CodePoint.backslash ∉ l ∧ (l = [] ∨ ∃ c ∈ l, ¬ c.isBlank)) :
    (codeEnvironment language).Foreign := by
  have htyping : (Text.ofString "typing").Foreign := by decide
  cases language with
  | none => exact htyping
  | some l =>
    rw [codeEnvironment]
    split
    · exact htyping
    · rename_i hl
      obtain ⟨hb, hs⟩ := h l rfl
      exact foreign_upper hb (hs.resolve_left fun hnil => hl (List.isEmpty_iff.mpr hnil))

theorem clear_startWord {environment : Text} (h : environment.Foreign) :
    (startWord environment ++ newline).Clear := by
  have hclear := clear_word (.inl rfl) h (by decide : newline.Clear)
  rwa [← List.append_assoc] at hclear

theorem clear_stopWord {environment : Text} (h : environment.Foreign) :
    (newline ++ stopWord environment).Clear := by
  have hnil : Clear [] := trivial
  have hclear := clear_word (.inr rfl) h hnil
  rw [List.append_nil] at hclear
  exact (by decide : newline.Clear).append hclear

theorem clear_style (style : Style) : style.opening.Clear ∧ style.closing.Clear := by
  cases style <;> decide

theorem clear_headerOpening (level : Level) : (headerOpening level).Clear := by
  unfold headerOpening
  split <;> decide

section

variable {n : Node}

theorem clear_opening (h : n.Plain) : n.opening.Clear := by
  cases n with
  | codeBlock => exact clear_startWord (foreign_codeEnvironment h.language)
  | header level => exact clear_headerOpening level
  | styled style => exact (clear_style style).1
  | bullets => exact clear_startWord (by decide)
  | space => exact (by decide : (Text.ofString " ").Clear)
  | str | rule | rawInline | rawBlock => trivial

theorem clear_closing (h : n.Plain) : n.closing.Clear := by
  cases n with
  | codeBlock => exact clear_stopWord (foreign_codeEnvironment h.language)
  | header => exact (by decide : (Text.ofString "\x7d").Clear)
  | styled style => exact (clear_style style).2
  | bullets => exact clear_stopWord (by decide)
  | str | space | rule | rawInline | rawBlock => trivial

theorem clear_separator (n : Node) : n.separator.Clear := by
  cases n with
  | bullets => exact (by decide : newline.Clear)
  | str | space | rule | rawInline | rawBlock | codeBlock | header | styled => trivial

end

/-- The markup of a plain node has no mark in it and makes none at its end. -/
theorem clear_markup (n : Node) (h : ∀ m ∈ walk [n], m.Plain) : n.markup.Clear := by
  rw [forall_walk_singleton] at h
  induction n using childInduction with
  | step n ih =>
    obtain ⟨hown, hchildren⟩ := h
    have htext : (n.ownText?.getD []).Clear := by
      cases ht : n.ownText? with
      | none => trivial
      | some t => exact clear_of_notMem (hown.text t ht)
    have hmarkups : n.childrenMarkup.Clear := by
      refine joinWith_closed trivial Clear.append n.clear_separator fun t ht => ?_
      obtain ⟨c, hc, rfl⟩ := List.mem_map.mp ht
      have hchild := ih c hc (forall_walk_singleton.mp (hchildren c hc))
      unfold childMarkup
      split
      · exact hchild.strip
      · exact hchild
    rw [markup_eq]
    exact ((clear_opening hown).append (htext.append hmarkups)).append (clear_closing hown)

end Node

namespace Template

/-- The text in front of the slides has no mark in it. -/
theorem clear_prologue : prologue.Clear := by
  unfold prologue Text.ofLines
  refine Text.clear_flatMap ?_
  decide +kernel

theorem clear_epilogue : epilogue.Clear := by
  decide +kernel

end Template

namespace Slide

open Text Markup

/-! ## Slides between their marks -/

theorem clear_body {s : Slide} (h : ∀ n ∈ s, ∀ m ∈ Node.walk [n], m.Plain) : s.body.Clear := by
  rw [body_eq]
  refine joinWith_closed trivial Clear.append (by decide : newline.Clear) fun t ht => ?_
  obtain ⟨n, hn, rfl⟩ := List.mem_map.mp ht
  exact n.clear_markup (h n hn)

/-- A frame is cut at the marks around it. -/
theorem sections_frame {s : Slide} (h : s.body.Clear) (rest : Text) :
    sections (s.frame ++ newline ++ rest) =
      ([], (.start, newline ++ s.body ++ newline) :: (.stop, newline ++ rest.sections.1) ::
        rest.sections.2) := by
  have hline : newline.Clear := by decide
  have hlines : s.frame ++ newline ++ rest = Mark.start.line ++ (newline ++ s.body ++ newline ++
      (Mark.stop.line ++ (newline ++ rest))) := by
    simp [frame_lines, Mark.line]
  rw [hlines, sections_line, sections_append ((hline.append h).append hline), sections_line,
    sections_append hline, List.append_nil]

theorem sections_frames {deck : List Slide} (h : ∀ s ∈ deck, s.body.Clear) {rest : Text}
    (hr : rest.Clear) :
    (frames deck ++ rest).sections.2.map Prod.fst = deck.flatMap (fun _ => [.start, .stop]) ∧
      (frames deck ++ rest).framed = deck.map fun s => newline ++ s.body ++ newline := by
  induction deck with
  | nil =>
    have hrest := sections_append hr []
    rw [List.append_nil] at hrest
    simp [framed, frames, hrest, sections]
  | cons s deck ih =>
    obtain ⟨hs, hdeck⟩ := List.forall_mem_cons.mp h
    obtain ⟨hmarks, hframed⟩ := ih hdeck
    have hfirst : frames (s :: deck) ++ rest = s.frame ++ newline ++ (frames deck ++ rest) := by
      simp [frames]
    rw [framed] at hframed ⊢
    rw [hfirst, sections_frame hs]
    simp [hmarks, hframed]

/-! ## How many slides there are -/

/-- The number of slides of a document: one, and one more for each rule and
each header behind the first node, unless there is no node. -/
def count (nodes : List Node) : Nat :=
  if nodes.isEmpty then 0
  else 1 + nodes.countP (·.tag = .rule) + nodes.tail.countP (·.tag = .header)

theorem length_cut (nodes : List Node) :
    (cut Node.boundary nodes).2.length =
      nodes.countP (·.tag = .rule) + nodes.countP (·.tag = .header) := by
  induction nodes with
  | nil => rfl
  | cons n nodes ih =>
    cases n <;> simp [cut, Node.boundary, Node.tag, ih] <;> omega

theorem length_segment (nodes : List Node) : (segment nodes).length = count nodes := by
  cases nodes with
  | nil => rfl
  | cons n nodes =>
    have hcut := length_cut nodes
    cases n <;> simp [segment, segmentBy, count, Node.boundary, Node.tag, hcut] <;> omega

end Slide

namespace Conversion

open Text Markup

/-! ## The law -/

theorem output_eq {config : Config} {payload : Json.Value} {c : Conversion}
    (h : ofPayload config payload = .ok c) :
    c.slides = Slide.segment c.document.blocks ∧ c.output = config.deck c.slides := by
  cases hd : Document.ofPayload payload with
  | error f =>
    rw [ofPayload_of_error hd] at h
    cases h
  | ok d =>
    rw [ofPayload_of_ok hd] at h
    split at h
    · cases h
    · split at h
      · cases h
        exact ⟨rfl, rfl⟩
      · cases h

/-- A document that is converted with the standard text around its slides,
and in which no text has a backslash and no language is of blanks. -/
structure Legible (c : Conversion) : Prop where
  converted : ∃ config payload, config.prologue = Template.prologue ∧
    config.epilogue = Template.epilogue ∧ ofPayload config payload = .ok c
  plain : ∀ n ∈ Node.walk c.document.blocks, n.Plain

theorem Legible.sections_output {c : Conversion} (h : c.Legible) :
    c.output.sections.2.map Prod.fst = c.slides.flatMap (fun _ => [.start, .stop]) ∧
      c.output.framed = c.slides.map fun s => newline ++ s.body ++ newline := by
  obtain ⟨⟨config, payload, hprologue, hepilogue, hc⟩, hplain⟩ := h
  obtain ⟨hslides, houtput⟩ := output_eq hc
  have hbody : ∀ s ∈ c.slides, s.body.Clear := by
    intro s hs
    refine Slide.clear_body fun n hn m hm => hplain m (Node.mem_walk.mpr ⟨n, ?_, hm⟩)
    have hmem : n ∈ (Slide.segment c.document.blocks).flatten :=
      List.mem_flatten.mpr ⟨s, hslides ▸ hs, hn⟩
    rw [Slide.flatten_segment] at hmem
    exact List.mem_of_mem_filter hmem
  have hdeck : c.output =
      Template.prologue ++ (Slide.frames c.slides ++ Template.epilogue) := by
    rw [houtput, Slide.deck_eq, hprologue, hepilogue, List.append_assoc]
  have hread := Slide.sections_frames hbody Template.clear_epilogue
  rw [framed] at hread ⊢
  rwa [hdeck, sections_append Template.clear_prologue]

/-- The output has a mark that opens and a mark that closes for each slide,
by turns, and no other. What stands behind a mark that opens, up to the next
one, is the body of its slide between line ends. So the bodies of the slides
are known from the output. -/
theorem frames_can_be_read_back {c : Conversion} (h : c.Legible) :
    c.slides.length = Slide.count c.document.blocks ∧
    (∀ mark : Mark, c.output.tails.countP (mark.line <+: ·) = c.slides.length) ∧
    c.output.tails.filterMap Mark.at? = c.slides.flatMap (fun _ => [.start, .stop]) ∧
    c.output.sections.1 ++ c.output.sections.2.flatMap (fun s => s.1.line ++ s.2) = c.output ∧
    c.output.framed = c.slides.map (fun s => newline ++ s.body ++ newline) ∧
    ∀ d : Conversion, d.Legible → d.output = c.output →
      d.slides.map Slide.body = c.slides.map Slide.body := by
  obtain ⟨hmarks, hframed⟩ := h.sections_output
  refine ⟨?_, ?_, ?_, flatten_sections c.output, hframed, ?_⟩
  · obtain ⟨_, _, -, -, hc⟩ := h.converted
    rw [(output_eq hc).1, Slide.length_segment]
  · intro mark
    rw [countP_tails, hmarks, List.count_flatMap]
    cases mark <;> simp [Function.comp_def]
  · rw [← map_fst_sections, hmarks]
  · intro d hd he
    have hsame := hd.sections_output.2
    rw [he, hframed] at hsame
    have hpad : Function.Injective fun body : Text => newline ++ body ++ newline :=
      fun _ _ hbody => List.append_cancel_left (List.append_cancel_right hbody)
    refine List.map_injective_iff.mpr hpad ?_
    rw [List.map_map, List.map_map]
    exact hsame.symm

/-- A quote in which text stands right behind the word that closes code. -/
def quotedTyping : Document :=
  ⟨[], [.header ⟨1, Nat.one_pos⟩ [] [.str (Text.ofString "a")], .rule,
    .styled .quote [.codeBlock (some (Text.ofString " start")) (Text.ofString "x"),
      .styled .para [.str (Text.ofString "makeup")]]]⟩

theorem frames_can_be_read_back_quoted :
    ∃ c : Conversion, c.Legible ∧ c.slides.length = 2 ∧
      c.output.tails.filterMap Mark.at? = [.start, .stop, .start, .stop] ∧
      c.output.framed = [Text.ofString "\n\\subject\x7ba\x7d\n",
        Text.ofString "\n\x7b\\italic\\quotation\x7b \\start START\nx\n" ++
          Text.ofString "\\stop STARTmakeup\x7d\x7d\n"] := by
  have hread : Document.ofPayload (Document.payload (.object quotedTyping.metadata)
      (quotedTyping.blocks.map Node.toRecord)) = .ok quotedTyping := rfl
  have hrenders : quotedTyping.Renders := by decide
  have hplain : ∀ n ∈ Node.walk quotedTyping.blocks, n.Plain := by decide
  have hconvert : ofPayload Config.standard (Document.payload (.object quotedTyping.metadata)
      (quotedTyping.blocks.map Node.toRecord)) = .ok (plain Config.standard quotedTyping) := by
    rw [ofPayload_unrefused (by decide) hread, if_pos hrenders]
  have hlegible : Legible (plain Config.standard quotedTyping) :=
    ⟨⟨Config.standard, _, rfl, rfl, hconvert⟩, hplain⟩
  obtain ⟨hcount, -, hmarks, -, hframed, -⟩ := frames_can_be_read_back hlegible
  exact ⟨_, hlegible, hcount, hmarks, hframed.trans (by decide +kernel)⟩

end Conversion

end Lectern
