-- Code is written as it stands. A quote strips what it holds, and so may any
-- number of quotes around it, but a strip ends at the words that open and close
-- the code, so no blank and no line of the code is lost.
import Lectern.Proofs.Frames

namespace Lectern

namespace Text

/-! ## Parts of a text that a strip leaves alone -/

/-- The text neither begins nor ends with a blank. -/
structure Firm (u : Text) : Prop where
  first : ∀ c ∈ u.head?, ¬ c.isBlank
  last : ∀ c ∈ u.getLast?, ¬ c.isBlank

theorem infix_stripStart {u t : Text} (hu : ∀ c ∈ u.head?, ¬ c.isBlank) (h : u <:+: t) :
    u <:+: t.stripStart := by
  obtain ⟨before, behind, rfl⟩ := h
  induction before with
  | nil =>
    cases u with
    | nil => exact List.nil_infix
    | cons c u =>
      have hc : ¬ c.isBlank := hu c rfl
      rw [stripStart, List.nil_append, List.cons_append, List.dropWhile_cons_of_neg hc]
      exact ⟨[], behind, rfl⟩
  | cons c before ih =>
    unfold stripStart at ih ⊢
    by_cases hc : c.isBlank
    · rwa [List.cons_append, List.cons_append, List.dropWhile_cons_of_pos hc]
    · rw [List.cons_append, List.cons_append, List.dropWhile_cons_of_neg hc]
      exact ⟨c :: before, behind, rfl⟩

theorem infix_stripEnd {u t : Text} (hu : ∀ c ∈ u.getLast?, ¬ c.isBlank) (h : u <:+: t) :
    u <:+: t.stripEnd := by
  rw [← List.head?_reverse] at hu
  have hreverse := infix_stripStart hu (List.reverse_infix.mpr h)
  rwa [← List.reverse_infix, stripEnd, List.reverse_reverse]

theorem Firm.infix_strip {u t : Text} (hu : u.Firm) (h : u <:+: t) : u <:+: t.strip :=
  infix_stripEnd hu.last (infix_stripStart hu.first h)

theorem infix_joinWith {t separator : Text} {ts : List Text} (h : t ∈ ts) :
    t <:+: joinWith separator ts := by
  induction ts with
  | nil => cases h
  | cons u us ih =>
    cases us with
    | nil =>
      rw [List.mem_singleton.mp h, joinWith, List.intercalate_singleton]
    | cons v vs =>
      unfold joinWith at ih ⊢
      rw [List.intercalate_cons_cons]
      rcases List.mem_cons.mp h with rfl | h
      · exact ⟨[], separator ++ separator.intercalate (v :: vs), by simp⟩
      · exact (ih h).trans (List.suffix_append _ _).isInfix

end Text

namespace Node

open Text Markup

/-! ## Nodes inside nodes -/

theorem infix_markup_of_infix_childrenMarkup {u : Text} {n : Node} (h : u <:+: n.childrenMarkup) :
    u <:+: n.markup := by
  rw [markup_eq]
  exact h.trans ⟨n.opening ++ n.ownText?.getD [], n.closing, by simp⟩

/-- What is firm in the markup of a node is in the markup of every node around
it. -/
theorem infix_markup_of_mem_walk {u : Text} (hu : u.Firm) {m n : Node} (hm : m ∈ walk [n])
    (h : u <:+: m.markup) : u <:+: n.markup := by
  induction n using childInduction with
  | step n ih =>
    rcases mem_walk_singleton.mp hm with rfl | ⟨c, hc, hm⟩
    · exact h
    · have hmarkup : u <:+: c.markup := ih c hc hm
      have hchild : u <:+: n.childMarkup c := by
        unfold childMarkup
        split
        · exact hu.infix_strip hmarkup
        · exact hmarkup
      have hmem : n.childMarkup c ∈ n.children.map n.childMarkup := List.mem_map_of_mem hc
      exact infix_markup_of_infix_childrenMarkup (hchild.trans (infix_joinWith hmem))

end Node

/-! ## Code in its environment -/

namespace Markup

/-- Code between the word that opens its environment and the word that closes
it, up to the name in the latter. -/
def typed (environment code : Text) : Text :=
  Text.ofString "\\start" ++ environment ++ newline ++ code ++ newline ++ Text.ofString "\\stop"

theorem typed_append (environment code : Text) :
    typed environment code ++ environment = block environment code := by
  simp [typed, block, startWord, stopWord]

/-- The text holds the code as it stands in its environment. The name of the
environment is complete behind it, unless that name ends with a blank. -/
structure HoldsCode (environment code output : Text) : Prop where
  lines : typed environment code <:+: output
  closed : (∀ c ∈ environment.getLast?, ¬ c.isBlank) →
    typed environment code ++ environment <:+: output

/-- A text in which all is left that is firm in another holds the code that the
other holds. -/
theorem HoldsCode.mono {environment code output output' : Text}
    (h : HoldsCode environment code output)
    (hmono : ∀ u : Text, u.Firm → u <:+: output → u <:+: output') :
    HoldsCode environment code output' := by
  have hfirst : ∀ rest : Text, ∀ c ∈ (typed environment code ++ rest).head?, ¬ c.isBlank := by
    rintro rest _ ⟨⟩
    decide
  have hstop : ∀ c ∈ (typed environment code).getLast?, ¬ c.isBlank := by
    intro c hc
    rw [typed, List.getLast?_append_of_ne_nil _ (by decide)] at hc
    revert c
    decide
  constructor
  · refine hmono _ ⟨?_, hstop⟩ h.lines
    rw [← List.append_nil (typed environment code)]
    exact hfirst []
  · intro hlast
    refine hmono _ ⟨hfirst environment, ?_⟩ (h.closed hlast)
    cases environment with
    | nil => rwa [List.append_nil]
    | cons c rest => rwa [List.getLast?_append_of_ne_nil _ (List.cons_ne_nil c rest)]

theorem HoldsCode.in_longer {environment code output output' : Text}
    (h : HoldsCode environment code output) (hinside : output <:+: output') :
    HoldsCode environment code output' :=
  h.mono fun _ _ hu => hu.trans hinside

end Markup

namespace Node

open Markup

theorem holdsCode_codeBlock (language : Option Text) (code : Text) :
    HoldsCode (codeEnvironment language) code (codeBlock language code).markup := by
  rw [markup, ← typed_append]
  exact ⟨(List.prefix_append _ _).isInfix, fun _ => List.infix_rfl⟩

theorem holdsCode_markup {n : Node} {language : Option Text} {code : Text}
    (h : codeBlock language code ∈ walk [n]) :
    HoldsCode (codeEnvironment language) code n.markup :=
  (holdsCode_codeBlock language code).mono fun _ hu hpart => infix_markup_of_mem_walk hu h hpart

end Node

/-! ## Code in a deck -/

theorem Slide.infix_frame {s : Slide} {n : Node} (h : n ∈ s) : n.markup <:+: s.frame := by
  have hbody : n.markup <:+: s.body := by
    rw [body_eq]
    exact Text.infix_joinWith (List.mem_map_of_mem h)
  rw [frame_lines]
  exact hbody.trans ⟨Template.slideStart ++ Markup.newline, Markup.newline ++ Template.slideStop,
    by simp⟩

theorem Config.infix_deck (config : Config) {slides : List Slide} {s : Slide} (h : s ∈ slides) :
    s.frame <:+: config.deck slides := by
  have hline : s.frame <:+: s.frame ++ Markup.newline := (List.prefix_append _ _).isInfix
  have hframes : s.frame ++ Markup.newline <:+: Slide.frames slides := by
    rw [Slide.frames, List.flatMap_def]
    exact List.infix_of_mem_flatten (List.mem_map_of_mem h)
  rw [Slide.deck_eq]
  exact (hline.trans hframes).trans ⟨config.prologue, config.epilogue, rfl⟩

namespace Conversion

open Node Markup

/-- A node that is no rule stands on a slide. -/
theorem exists_slide {nodes : List Node} {n : Node} (h : n ∈ nodes) (hrule : n.tag ≠ .rule) :
    ∃ s ∈ Slide.segment nodes, n ∈ s := by
  have hmem : n ∈ (Slide.segment nodes).flatten := by
    rw [Slide.flatten_segment]
    exact List.mem_filter.mpr ⟨h, by simpa using hrule⟩
  exact List.mem_flatten.mp hmem

theorem holds_deck (config : Config) {nodes : List Node} {language : Option Text} {code : Text}
    (h : codeBlock language code ∈ walk nodes) :
    HoldsCode (codeEnvironment language) code (config.deck (Slide.segment nodes)) := by
  obtain ⟨n, hn, hwalk⟩ := mem_walk.mp h
  have hrule : n.tag ≠ .rule := by
    intro hrule
    rw [n.tag_eq_rule.mp hrule] at hwalk
    cases List.mem_singleton.mp hwalk
  obtain ⟨s, hs, hmem⟩ := exists_slide hn hrule
  exact (holdsCode_markup hwalk).in_longer ((Slide.infix_frame hmem).trans (config.infix_deck hs))

theorem ofText_eq_ok {config : Config} {t : Text} {c : Conversion} (h : ofText config t = .ok c) :
    ∃ payload, Json.parse t = .ok payload ∧ ofPayload config payload = .ok c := by
  unfold ofText at h
  cases hp : Json.parse t with
  | error f =>
    rw [hp] at h
    cases h
  | ok payload =>
    rw [hp] at h
    exact ⟨payload, rfl, h⟩

theorem holds_output {config : Config} {payload : Json.Value} {c : Conversion}
    (h : ofPayload config payload = .ok c) {language : Option Text} {code : Text}
    (hcode : codeBlock language code ∈ walk c.document.blocks) :
    HoldsCode (codeEnvironment language) code c.output := by
  obtain ⟨hslides, houtput⟩ := output_eq h
  rw [houtput, hslides]
  exact holds_deck config hcode

/-- A block of code stands in the markup of every node around it as it is: the
word that opens its environment, the code on lines of its own, and the word that
closes the environment. The same holds of the output of every conversion of a
document with that block. -/
theorem code_is_written_as_it_stands :
    (∀ (n : Node) (language : Option Text) (code : Text), codeBlock language code ∈ walk [n] →
      HoldsCode (codeEnvironment language) code n.markup) ∧
    (∀ config payload c, ofPayload config payload = .ok c → ∀ language code,
      codeBlock language code ∈ walk c.document.blocks →
        HoldsCode (codeEnvironment language) code c.output) ∧
    ∀ config t c, ofText config t = .ok c → ∀ language code,
      codeBlock language code ∈ walk c.document.blocks →
        HoldsCode (codeEnvironment language) code c.output := by
  refine ⟨fun n language code h => holdsCode_markup h, ?_, ?_⟩
  · intro config payload c hc language code h
    exact holds_output hc h
  · intro config t c hc language code h
    obtain ⟨payload, -, hpayload⟩ := ofText_eq_ok hc
    exact holds_output hpayload h

/-- A list in a quote, with code whose language ends in a blank. -/
def quotedCode : Node :=
  .styled .quote [.bullets [[.styled .quote
    [.codeBlock (some (Text.ofString "c ")) (Text.ofString "\n  x \n")]]]]

/-- The text of a document with code of one blank in a quote. -/
def blankCodeText : Text := Text.ofString <|
  "[\x7b\x7d,[\x7b\"t\":\"BlockQuote\",\"c\":[" ++
    "\x7b\"t\":\"CodeBlock\",\"c\":[[0,[],0],\" \"]\x7d]\x7d]]"

/-- That document. -/
def blankCode : Document := .ofNode (.styled .quote [.codeBlock none (Text.ofString " ")])

theorem ofText_blankCodeText :
    ofText Config.standard blankCodeText = .ok (plain Config.standard blankCode) :=
  ofText_of_read rfl rfl (by decide) (by decide)

theorem code_is_written_as_it_stands_quoted :
    Text.ofString "\\startC \n\n  x \n\n\\stop" <:+: quotedCode.markup ∧
      ∃ payload c, ofPayload Config.standard payload = .ok c ∧
        ofText Config.standard blankCodeText = .ok c ∧
        Text.ofString "\\starttyping\n \n\\stop" <:+: c.output ∧
        Text.ofString "\\starttyping\n \n\\stoptyping" <:+: c.output := by
  have hlanguage : codeBlock (some (Text.ofString "c ")) (Text.ofString "\n  x \n") ∈
      walk [quotedCode] := by decide
  have hblank : codeBlock none (Text.ofString " ") ∈ walk blankCode.blocks := by decide
  have hupper : typed (codeEnvironment (some (Text.ofString "c "))) (Text.ofString "\n  x \n") =
      Text.ofString "\\startC \n\n  x \n\n\\stop" := by decide +kernel
  obtain ⟨hmarkup, hpayload, htext⟩ := code_is_written_as_it_stands
  obtain ⟨payload, -, hc⟩ := ofText_eq_ok ofText_blankCodeText
  have houtput := hpayload _ _ _ hc _ _ hblank
  have hinput := htext _ _ _ ofText_blankCodeText _ _ hblank
  refine ⟨?_, payload, _, hc, ofText_blankCodeText, houtput.lines, hinput.closed (by decide)⟩
  rw [← hupper]
  exact (hmarkup _ _ _ hlanguage).lines

end Conversion

end Lectern
