-- Environments in the markup of a slide. A code block or a bullet list ends
-- in the word that closes its environment, and nothing ends that word when
-- a node is written right behind it. This is the only way in which the
-- environments of a slide fail to nest.
import Lectern.Node.Walk
import Lectern.Proofs.RunningOn
import Lectern.Slide.Deck

namespace Lectern

namespace Markup

open Text

/-! ## Environments -/

/-- A body in an environment, with more on the line that opens it. -/
def enclose (environment head body : Text) : Text :=
  startWord environment ++ (head ++ (body ++ (newline ++ stopWord environment)))

theorem block_eq (environment body : Text) :
    block environment body = enclose environment newline body := by
  simp [block, enclose]

theorem startWord_eq (environment : Text) :
    startWord environment = CodePoint.backslash :: (startName ++ environment) := rfl

theorem stopWord_eq (environment : Text) :
    stopWord environment = CodePoint.backslash :: (stopName ++ environment) := rfl

section

variable {environment : Text}

theorem letters_stopName (he : environment.Letters) : Letters (stopName ++ environment) :=
  letters_append.mpr ⟨by decide, he⟩

theorem brackets_startWord (he : environment.Letters) {rest : Text}
    (hr : ¬ rest.OpensWithLetter) :
    (startWord environment ++ rest).brackets = .opens environment :: rest.brackets := by
  have hw : Letters (startName ++ environment) := letters_append.mpr ⟨by decide, he⟩
  rw [startWord_eq, List.cons_append, brackets_word hw,
    takeWhile_eq_nil_of_not_opensWithLetter hr, List.append_nil, Bracket.ofWord?_start]
  rfl

/-- What stands in front of a line end and a closing word is read first. -/
theorem brackets_append_stopWord (he : environment.Letters) (t : Text) :
    (t ++ (newline ++ stopWord environment)).brackets = t.brackets ++ [.closes environment] := by
  have hopens : ¬ OpensWithLetter (newline ++ stopWord environment) :=
    not_opensWithLetter_append (by decide) (by decide) _
  have hline : CodePoint.backslash ∉ newline := by decide
  have hstop := brackets_stopName [] (letters_stopName he) []
  rw [List.append_nil, List.nil_append, List.takeWhile_nil, List.append_nil] at hstop
  rw [brackets_append_of_not_opensWithLetter t hopens, brackets_append_of_notMem hline,
    stopWord_eq, hstop]
  rfl

/-- An environment around a body is sound if the body is. -/
theorem decided_enclose (he : environment.Letters) {head body : Text} (hne : head ≠ [])
    (hl : ¬ head.OpensWithLetter) (hh : CodePoint.backslash ∉ head) (hb : body.Decided) :
    (enclose environment head body).Decided ∧
      ((enclose environment head body).Sound ↔ body.Sound) := by
  have hopens := not_opensWithLetter_append hne hl
  have hsound : body.Sound → (enclose environment head body).Sound := by
    intro hs
    refine ⟨?_, ?_⟩
    · have hsettled := settled_stopName
        (startWord environment ++ (head ++ (body ++ newline))) (letters_stopName he)
      rw [enclose, stopWord_eq]
      simpa only [List.append_assoc] using hsettled
    · rw [enclose, brackets_startWord he (hopens _), brackets_append_of_notMem hh,
        brackets_append_stopWord he]
      exact .wrap environment hs.nested .nil
  have hbroken : body.Broken → (enclose environment head body).Broken := by
    rintro ⟨a, b, rfl, ⟨hclosing, ho⟩, hread⟩
    refine ⟨startWord environment ++ (head ++ a), b ++ (newline ++ stopWord environment),
      by simp [enclose], ⟨(hclosing.append_left _).append_left _, ho.append_right _⟩,
      fun names => ?_⟩
    obtain ⟨left, hleft⟩ := hread (environment :: names)
    refine ⟨left, ?_⟩
    rw [brackets_startWord he (hopens a), brackets_append_of_notMem hh, List.foldlM_cons]
    exact hleft
  refine ⟨hb.imp hsound hbroken, fun hs => ?_, hsound⟩
  exact hb.resolve_right fun h => (hbroken h).not_sound hs

end

end Markup

namespace Node

open Text Markup

/-! ## Nodes -/

/-- The node itself writes no backslash, and its language is all letters. -/
def Tame : Node → Prop
  | .str t => CodePoint.backslash ∉ t
  | .rawInline _ raw | .rawBlock _ raw => CodePoint.backslash ∉ raw
  | .codeBlock language code => CodePoint.backslash ∉ code ∧ ∀ l ∈ language, Letters l
  | _ => True

instance (n : Node) : Decidable n.Tame :=
  match n with
  | .str t => inferInstanceAs (Decidable (CodePoint.backslash ∉ t))
  | .rawInline _ raw | .rawBlock _ raw => inferInstanceAs (Decidable (CodePoint.backslash ∉ raw))
  | .codeBlock language code =>
    inferInstanceAs (Decidable (CodePoint.backslash ∉ code ∧ ∀ l ∈ language, Letters l))
  | .header .. | .styled .. | .bullets _ | .space | .rule => isTrue trivial

/-- The texts that are written right behind one another inside a node. The
items of a bullet list have lines of their own. -/
def pieces : Node → List Text
  | .header _ _ contents => markups contents
  | .styled .quote contents => (markups contents).map Text.strip
  | .styled _ contents => markups contents
  | _ => []

/-- Nowhere in the node does a closing word run on. -/
def Smooth (n : Node) : Prop := ∀ m ∈ walk [n], ¬ RunsOn m.pieces

/-- The markup of the node is sound if the node is smooth, and broken if it
is not. -/
structure Judged (n : Node) : Prop where
  decided : n.markup.Decided
  sound_iff : n.markup.Sound ↔ n.Smooth

theorem smooth_iff (n : Node) : n.Smooth ↔ ¬ RunsOn n.pieces ∧ ∀ c ∈ n.children, c.Smooth :=
  forall_walk_singleton

theorem smooth_of_leaf {n : Node} (hp : n.pieces = []) (hc : n.children = []) : n.Smooth := by
  rw [smooth_iff, hp, hc]
  exact ⟨not_runsOn_nil, by simp⟩

theorem judged_of_leaf {n : Node} (hp : n.pieces = []) (hc : n.children = [])
    (h : n.markup.Sound) : n.Judged :=
  ⟨.inl h, fun _ => smooth_of_leaf hp hc, fun _ => h⟩

theorem letters_codeEnvironment {language : Option Text} (h : ∀ l ∈ language, Letters l) :
    Letters (codeEnvironment language) := by
  cases language with
  | none => decide
  | some l =>
    unfold codeEnvironment
    simp only
    split
    · decide
    · intro d hd
      obtain ⟨c, hc, hd⟩ := List.mem_flatMap.mp hd
      exact CodePoint.isLetter_upper (h l rfl c hc) hd

theorem decided_block {environment body : Text} (he : Letters environment) (hb : body.Decided) :
    (block environment body).Decided ∧ ((block environment body).Sound ↔ body.Sound) := by
  rw [block_eq]
  exact decided_enclose he (by decide) (by decide) (by decide) hb

/-- What a node is written between changes nothing, if no word there has to
do with environments. -/
theorem decided_between {opening body closing : Text}
    (ho : ∀ word ∈ opening.controlWords, Inert word) (hc : CodePoint.backslash ∉ closing)
    (hl : ¬ closing.OpensWithLetter) (hb : body.Decided) :
    Decided (opening ++ body ++ closing) ∧ (Sound (opening ++ body ++ closing) ↔ body.Sound) := by
  have hopening : opening.Sound := sound_of_inert ho
  have hclosing : closing.Sound := sound_of_notMem hc
  have hruns : ∀ t, ¬ RunsInto opening t := by
    rintro t ⟨⟨name, hw⟩, -⟩
    have hi := ho _ hw.trailsOffIn.mem_controlWords []
    rw [List.append_nil, Bracket.ofWord?_stop] at hi
    cases hi
  have hopened : Decided (opening ++ body) := .append (.inl hopening) hb
  refine ⟨hopened.append (.inl hclosing), ?_⟩
  rw [sound_append_iff hopened (.inl hclosing), sound_append_iff (.inl hopening) hb]
  constructor
  · exact fun h => h.1.2.1
  · exact fun h => ⟨⟨hopening, h, hruns body⟩, hclosing, fun hr => hl hr.2⟩

theorem decided_markups {ns : List Node} (h : ∀ n ∈ ns, n.Judged) :
    (∀ t ∈ markups ns, Decided t) ∧ ((∀ t ∈ markups ns, Sound t) ↔ ∀ n ∈ ns, n.Smooth) := by
  rw [markups_eq]
  constructor
  · intro t ht
    obtain ⟨n, hn, rfl⟩ := List.mem_map.mp ht
    exact (h n hn).decided
  · rw [List.forall_mem_map]
    exact forall₂_congr fun n hn => (h n hn).sound_iff

theorem inert_opening (style : Style) : ∀ word ∈ style.opening.controlWords, Inert word := by
  intro word hw
  apply inert_of_not_prefix
  revert word
  cases style <;> decide

theorem inert_headerOpening (level : Level) :
    ∀ word ∈ (headerOpening level).controlWords, Inert word := by
  intro word hw
  apply inert_of_not_prefix
  revert word
  unfold headerOpening
  split <;> decide

/-- A node that only holds others is judged by them and by what its pieces
run on into. -/
theorem judged_of_pieces {n : Node} {opening closing : Text}
    (hn : n.markup = opening ++ n.pieces.flatten ++ closing)
    (ho : ∀ word ∈ opening.controlWords, Inert word) (hc : CodePoint.backslash ∉ closing)
    (hl : ¬ closing.OpensWithLetter) (hp : ∀ t ∈ n.pieces, Decided t)
    (hiff : (∀ t ∈ n.pieces, Sound t) ↔ ∀ c ∈ n.children, c.Smooth) : n.Judged := by
  obtain ⟨hs, hsound⟩ := decided_between ho hc hl (decided_flatten hp)
  rw [← hn] at hs hsound
  refine ⟨hs, ?_⟩
  rw [hsound, sound_flatten_iff hp, smooth_iff, hiff, and_comm]

theorem judged_styled (style : Style) {contents : List Node} (h : ∀ n ∈ contents, n.Judged) :
    (styled style contents).Judged := by
  obtain ⟨hs, hiff⟩ := decided_markups h
  have hc : CodePoint.backslash ∉ style.closing := by cases style <;> decide
  have hl : ¬ style.closing.OpensWithLetter := by cases style <;> decide
  cases style with
  | para | plain | strong | emph => exact judged_of_pieces rfl (inert_opening _) hc hl hs hiff
  | quote =>
    refine judged_of_pieces rfl (inert_opening _) hc hl ?_ ?_
    · intro stripped hm
      obtain ⟨t, ht, rfl⟩ := List.mem_map.mp hm
      exact (hs t ht).strip
    · refine Iff.trans ?_ hiff
      unfold pieces
      rw [List.forall_mem_map]
      exact forall₂_congr fun t ht => sound_strip_iff (hs t ht)

/-- The markup of a node is sound if no closing word runs on in it, and
broken otherwise. -/
theorem judged (n : Node) (h : ∀ m ∈ walk [n], m.Tame) : n.Judged := by
  rw [forall_walk_singleton] at h
  induction n with
  | str t => exact judged_of_leaf rfl rfl (sound_of_notMem h.1)
  | space => exact judged_of_leaf rfl rfl (sound_of_notMem (by decide))
  | rule => exact judged_of_leaf rfl rfl (sound_of_notMem List.not_mem_nil)
  | rawInline | rawBlock => exact judged_of_leaf rfl rfl (sound_of_notMem h.1)
  | codeBlock language code =>
    obtain ⟨hcode, hlanguage⟩ := h.1
    have hs : Decided code := .inl (sound_of_notMem hcode)
    have hblock := decided_block (letters_codeEnvironment hlanguage) hs
    exact judged_of_leaf rfl rfl (hblock.2.mpr (sound_of_notMem hcode))
  | header level identifier contents ih =>
    have hjudged : ∀ n ∈ contents, n.Judged := by
      intro n hn
      apply ih n hn
      exact forall_walk_singleton.mp (h.2 n hn)
    obtain ⟨hs, hiff⟩ := decided_markups hjudged
    exact judged_of_pieces rfl (inert_headerOpening level) (by decide) (by decide) hs hiff
  | styled style contents ih =>
    apply judged_styled
    intro n hn
    apply ih n hn
    exact forall_walk_singleton.mp (h.2 n hn)
  | bullets items _ ih =>
    have hjudged : ∀ c ∈ items.map (styled .plain), c.Judged := by
      intro c hc
      have htame := forall_walk_singleton.mp (h.2 c hc)
      obtain ⟨contents, hi, rfl⟩ := List.mem_map.mp hc
      exact ih contents hi htame
    obtain ⟨hs, hiff⟩ := decided_markups hjudged
    have hitems : itemMarkups items = markups (items.map (styled .plain)) := by
      rw [itemMarkups_eq, markups_eq, List.map_map]
      rfl
    obtain ⟨hjoin, hjoined⟩ := decided_joinWith hs
    obtain ⟨hblock, hsound⟩ := decided_block (show Letters itemize by decide) hjoin
    have hn : (bullets items).markup =
        block itemize (joinWith newline (markups (items.map (styled .plain)))) := by
      rw [markup, hitems]
    refine ⟨hn ▸ hblock, ?_⟩
    rw [hn, hsound, hjoined, hiff, smooth_iff]
    exact (and_iff_right not_runsOn_nil).symm

end Node

namespace Slide

open Text Markup

/-! ## The law -/

/-- The environment of a slide. -/
def environment : Text := Text.ofString "standardmakeup"

theorem frame_eq (s : Slide) :
    s.frame = enclose environment (Text.ofString "[align=middle]" ++ newline) s.body := by
  have hstart : Template.slideStart =
      startWord environment ++ Text.ofString "[align=middle]" := rfl
  have hstop : Template.slideStop = stopWord environment := rfl
  rw [frame, enclose, hstart, hstop, joinWith, List.intercalate_cons_cons,
    List.intercalate_cons_cons, List.intercalate_singleton]
  simp

/-- The environments of a slide are nested if no closing word in it runs on
into what is written behind it, and only then. -/
theorem environments_nest_unless_a_closing_word_runs_on (s : Slide)
    (h : ∀ n ∈ Node.walk s, n.Tame) :
    Nested s.frame.brackets ↔ ∀ n ∈ Node.walk s, ¬ RunsOn n.pieces := by
  have hjudged : ∀ n ∈ s, n.Judged := by
    intro n hn
    apply n.judged
    intro m hm
    exact h m (Node.mem_walk.mpr ⟨n, hn, hm⟩)
  obtain ⟨hs, hiff⟩ := Node.decided_markups hjudged
  obtain ⟨hbody, hjoined⟩ := decided_joinWith hs
  have he : Letters environment := by decide
  have hhead : CodePoint.backslash ∉ Text.ofString "[align=middle]" ++ newline := by decide
  obtain ⟨hframe, hsound⟩ := decided_enclose he (by simp [newline]) (by decide) hhead hbody
  rw [frame_eq, body, ← hframe.sound_iff, hsound, hjoined, hiff]
  constructor
  · intro hsmooth m hm
    obtain ⟨n, hn, hm⟩ := Node.mem_walk.mp hm
    exact hsmooth n hn m hm
  · intro hall n hn m hm
    exact hall m (Node.mem_walk.mpr ⟨n, hn, hm⟩)

/-- A list with code in it, and a quote that ends in a list. -/
def nestedSlide : Slide :=
  [.bullets [[.str (Text.ofString "a")],
      [.codeBlock (some (Text.ofString "ruby")) (Text.ofString "x")]],
    .styled .quote [.styled .para [.str (Text.ofString "q")], .bullets [[.space]]]]

theorem environments_nest_unless_a_closing_word_runs_on_lists :
    Nested nestedSlide.frame.brackets ∧ ∀ n ∈ Node.walk nestedSlide, ¬ RunsOn n.pieces := by
  have hn : Nested nestedSlide.frame.brackets := by decide +kernel
  have hiff := environments_nest_unless_a_closing_word_runs_on nestedSlide (by decide)
  exact ⟨hn, hiff.mp hn⟩

/-- A quote in which a paragraph comes after code. -/
def quotedCode : Slide :=
  [.styled .quote
    [.codeBlock none (Text.ofString "x"), .styled .para [.str (Text.ofString "after")]]]

/-- So environments need not be nested. -/
theorem a_closing_word_may_run_on :
    ¬ ∀ s : Slide, (∀ n ∈ Node.walk s, n.Tame) → Nested s.frame.brackets := by
  intro h
  have hframe : ¬ Nested (quotedCode.frame.brackets) := by decide +kernel
  exact hframe (h quotedCode (by decide))

end Slide

end Lectern
