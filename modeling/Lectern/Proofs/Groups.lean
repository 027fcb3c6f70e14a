-- Groups of braces in markup. Each node closes the groups that it opens, so
-- only the texts and the languages in a document can leave a brace over. The
-- law about prefixes needs a depth in front of a text: what is inside a group
-- may be read from any depth, and what closes the group from its own only.
import Mathlib.Algebra.Ring.Int.Defs
import Mathlib.Data.List.Infix
import Lectern.Proofs.Capitals
import Lectern.Proofs.Writing

namespace Lectern

namespace Text

open CodePoint

/-! ## Counting braces -/

/-- As many braces are closed as are opened, and none before it is opened. -/
def Balanced (t : Text) : Prop :=
  t.count openBrace = t.count closeBrace ∧ ∀ p : Text, p <+: t → p.count closeBrace ≤ p.count openBrace

instance (t : Text) : Decidable t.Balanced :=
  decidable_of_iff (t.count openBrace = t.count closeBrace ∧
    ∀ p ∈ t.inits, p.count closeBrace ≤ p.count openBrace) (by simp only [Balanced, List.mem_inits])

/-- How many more braces the text opens than it closes. -/
def excess (t : Text) : Int := t.count openBrace - t.count closeBrace

/-- With this many groups open in front of it, the text closes none that is
not open. -/
def Bounded (depth : Int) (t : Text) : Prop := ∀ p : Text, p <+: t → 0 ≤ depth + p.excess

instance (depth : Int) (t : Text) : Decidable (t.Bounded depth) :=
  decidable_of_iff (∀ p ∈ t.inits, 0 ≤ depth + excess p) (by simp only [Bounded, List.mem_inits])

theorem balanced_iff {t : Text} : t.Balanced ↔ t.excess = 0 ∧ t.Bounded 0 := by
  have hcount : ∀ p : Text, p.count closeBrace ≤ p.count openBrace ↔ 0 ≤ 0 + p.excess := by
    intro p
    unfold excess
    omega
  unfold Balanced Bounded
  simp only [hcount]
  refine and_congr_left fun _ => ?_
  unfold excess
  omega

theorem excess_append (a b : Text) : excess (a ++ b) = a.excess + b.excess := by
  simp only [excess, List.count_append]
  omega

theorem Bounded.mono {depth more : Int} {t : Text} (h : t.Bounded depth) (hd : depth ≤ more) :
    t.Bounded more := by
  intro p hp
  have := h p hp
  omega

theorem Bounded.depth_nonneg {depth : Int} {t : Text} (h : t.Bounded depth) :
    0 ≤ depth + t.excess :=
  h t List.prefix_rfl

/-- A text is bounded in front of another at the depth it starts from, and
the other at the depth where the first ends. -/
theorem Bounded.append {depth : Int} {a b : Text} (ha : a.Bounded depth)
    (hb : b.Bounded (depth + a.excess)) : Bounded depth (a ++ b) := by
  rintro p ⟨rest, hp⟩
  rcases List.append_eq_append_iff.mp hp with ⟨more, rfl, -⟩ | ⟨more, rfl, rfl⟩
  · exact ha p (List.prefix_append p more)
  · have := hb more (List.prefix_append more rest)
    rw [excess_append]
    omega

/-! ## Balanced texts -/

theorem Balanced.append {a b : Text} (ha : a.Balanced) (hb : b.Balanced) : Balanced (a ++ b) := by
  rw [balanced_iff] at *
  obtain ⟨hea, hba⟩ := ha
  obtain ⟨heb, hbb⟩ := hb
  refine ⟨by rw [excess_append, hea, heb, Int.add_zero], hba.append ?_⟩
  rwa [hea, Int.add_zero]

/-- The second text closes the groups that the first opens. -/
structure Pairs (opening closing : Text) : Prop where
  opens : opening.Bounded 0
  closes : closing.Bounded opening.excess
  even : opening.excess + closing.excess = 0

instance (opening closing : Text) : Decidable (Pairs opening closing) :=
  decidable_of_iff (opening.Bounded 0 ∧ closing.Bounded opening.excess ∧
    opening.excess + closing.excess = 0)
    ⟨fun ⟨ho, hc, he⟩ => ⟨ho, hc, he⟩, fun ⟨ho, hc, he⟩ => ⟨ho, hc, he⟩⟩

/-- A balanced text in groups is balanced together with them. -/
theorem Pairs.balanced {opening inside closing : Text} (h : Pairs opening closing)
    (hi : inside.Balanced) : Balanced (opening ++ inside ++ closing) := by
  rw [balanced_iff] at *
  obtain ⟨hie, hib⟩ := hi
  have hinside : inside.Bounded (0 + opening.excess) := hib.mono h.opens.depth_nonneg
  refine ⟨by rw [excess_append, excess_append, hie, Int.add_zero, h.even],
    (h.opens.append hinside).append ?_⟩
  rw [excess_append, hie, Int.add_zero, Int.zero_add]
  exact h.closes

theorem Balanced.pairs {opening closing : Text} (ho : opening.Balanced) (hc : closing.Balanced) :
    Pairs opening closing := by
  rw [balanced_iff] at *
  exact ⟨ho.2, ho.1 ▸ hc.2, by rw [ho.1, hc.1, Int.add_zero]⟩

theorem balanced_nil : Balanced [] := by decide

/-- Balanced texts with a separator between two of them. -/
theorem Balanced.joinWith {separator : Text} (hs : separator.Balanced) {ts : List Text}
    (h : ∀ t ∈ ts, t.Balanced) : (joinWith separator ts).Balanced :=
  joinWith_closed balanced_nil Balanced.append hs h

theorem excess_joinWith {separator : Text} (hs : separator.excess = 0) (ts : List Text) :
    (joinWith separator ts).excess = (ts.map excess).sum := by
  induction ts with
  | nil => rfl
  | cons t ts ih =>
    cases ts with
    | nil => simp [joinWith]
    | cons u us =>
      unfold joinWith at ih ⊢
      rw [List.intercalate_cons_cons, excess_append, excess_append, hs, ih]
      simp

/-! ## Texts with the same braces -/

/-- The braces of a text, in order. -/
def braces (t : Text) : Text := t.filter fun c => c = openBrace || c = closeBrace

theorem excess_braces (t : Text) : t.braces.excess = t.excess := by
  unfold excess braces
  rw [List.count_filter (by decide), List.count_filter (by decide)]

theorem excess_congr {t u : Text} (h : t.braces = u.braces) : t.excess = u.excess := by
  rw [← excess_braces t, h, excess_braces]

/-- Each prefix of one of two texts with the same braces has the braces of a
prefix of the other. -/
theorem Bounded.congr {depth : Int} {t u : Text} (ht : t.Bounded depth)
    (h : t.braces = u.braces) : u.Bounded depth := by
  intro p hp
  have hbraces : p.braces <+: t.braces := h ▸ hp.filter _
  obtain ⟨q, hq, he⟩ := List.prefix_filter_iff.mp hbraces
  rw [excess_congr (show p.braces = braces q from he)]
  exact ht q hq

theorem Balanced.congr {t u : Text} (ht : t.Balanced) (h : t.braces = u.braces) : u.Balanced := by
  rw [balanced_iff] at *
  exact ⟨excess_congr h ▸ ht.1, ht.2.congr h⟩

theorem braces_strip (t : Text) : t.strip.braces = t.braces := by
  have ho : openBrace.isBlank = false := by decide
  have hc : closeBrace.isBlank = false := by decide
  refine filter_strip (fun c hblank => ?_) t
  simp only [Bool.or_eq_false_iff, decide_eq_false_iff_not]
  constructor
  · rintro rfl
    simp [ho] at hblank
  · rintro rfl
    simp [hc] at hblank

theorem braces_upper (t : Text) : t.upper.braces = t.braces := by
  have ho : ¬ openBrace.IsCapital := by
    unfold IsCapital
    decide
  have hc : ¬ closeBrace.IsCapital := by
    unfold IsCapital
    decide
  have hself : openBrace.upper = [openBrace] ∧ closeBrace.upper = [closeBrace] := by
    decide +kernel
  refine filter_upper (fun c h => ?_) (fun c h => ?_) t
  · simp [h.ne ho, h.ne hc]
  · simp only [Bool.or_eq_true, decide_eq_true_eq] at h
    rcases h with rfl | rfl
    · exact hself.1
    · exact hself.2

end Text

/-! ## Nodes -/

namespace Node

open Text Markup

/-- How many braces more the node opens than it closes with its own text and
its language, which is written twice. -/
def ownExcess (n : Node) : Int :=
  (n.ownText?.getD []).excess + 2 * (n.ownLanguage?.getD []).excess

/-- The text and the language of the node itself are balanced. -/
def HoldsBalanced (n : Node) : Prop :=
  (∀ t ∈ n.ownText?, Balanced t) ∧ ∀ l ∈ n.ownLanguage?, Balanced l

instance (n : Node) : Decidable n.HoldsBalanced :=
  inferInstanceAs (Decidable ((∀ t ∈ n.ownText?, Balanced t) ∧ ∀ l ∈ n.ownLanguage?, Balanced l))

theorem braces_codeEnvironment (language : Option Text) :
    (codeEnvironment language).braces = (language.getD []).braces := by
  cases language with
  | none => decide
  | some l =>
    rw [codeEnvironment]
    split
    · rename_i hl
      rw [List.isEmpty_iff.mp hl]
      decide
    · exact braces_upper l

theorem pairs_style (style : Style) : Pairs style.opening style.closing := by
  cases style <;> decide

theorem pairs_header (level : Level) : Pairs (headerOpening level) (Text.ofString "\x7d") := by
  unfold headerOpening
  split <;> decide

/-- A node closes the groups that it opens, but for those of its language. -/
theorem excess_opening_closing (n : Node) :
    n.opening.excess + n.closing.excess = 2 * (n.ownLanguage?.getD []).excess := by
  cases n with
  | codeBlock language code =>
    have he := excess_congr (braces_codeEnvironment language)
    have hstart : (Text.ofString "\\start").excess = 0 := by decide
    have hstop : (Text.ofString "\\stop").excess = 0 := by decide
    have hline : newline.excess = 0 := by decide
    simp only [opening, closing, ownLanguage?, startWord, stopWord, excess_append, he, hstart,
      hstop, hline]
    omega
  | header level => exact (pairs_header level).even
  | styled style => exact (pairs_style style).even
  | str | space | rule | rawInline | rawBlock | bullets => rfl

theorem balanced_separator (n : Node) : n.separator.Balanced := by
  cases n with
  | bullets => exact (by decide : newline.Balanced)
  | str | space | rule | rawInline | rawBlock | codeBlock | header | styled => exact balanced_nil

theorem braces_childMarkup (n c : Node) : (n.childMarkup c).braces = c.markup.braces := by
  unfold childMarkup
  split
  · exact braces_strip c.markup
  · rfl

/-- What is left over in the markup of a node is left over in the texts and
the languages that the walk meets. -/
theorem excess_markup (n : Node) : n.markup.excess = ((walk [n]).map ownExcess).sum := by
  induction n using childInduction with
  | step n ih =>
    have hchildren : n.childrenMarkup.excess = ((walk n.children).map ownExcess).sum := by
      rw [childrenMarkup, excess_joinWith (balanced_iff.mp n.balanced_separator).1, List.map_map,
        flatMap_walk, List.map_flatMap, List.flatMap_def, List.sum_flatten, List.map_map]
      congr 1
      refine List.map_congr_left fun c hc => ?_
      rw [Function.comp_apply, Function.comp_apply, excess_congr (n.braces_childMarkup c), ih c hc]
    have hgroups := n.excess_opening_closing
    rw [markup_eq, excess_append, excess_append, excess_append, hchildren, walk_singleton,
      List.map_cons, List.sum_cons, ownExcess]
    omega

/-- A node whose language is balanced closes the groups that it opens. -/
theorem pairs_opening_closing {n : Node} (h : ∀ l ∈ n.ownLanguage?, Balanced l) :
    Pairs n.opening n.closing := by
  cases n with
  | codeBlock language code =>
    have henvironment : (codeEnvironment language).Balanced := by
      have hlanguage : Balanced (language.getD []) := by
        cases language with
        | none => exact balanced_nil
        | some l => exact h l rfl
      exact hlanguage.congr (braces_codeEnvironment language).symm
    have hstart : (Text.ofString "\\start").Balanced := by decide
    have hstop : (Text.ofString "\\stop").Balanced := by decide
    have hline : newline.Balanced := by decide
    exact ((hstart.append henvironment).append hline).pairs
      (hline.append (hstop.append henvironment))
  | header level => exact pairs_header level
  | styled style => exact pairs_style style
  | space => exact (by decide : Pairs (Text.ofString " ") [])
  | bullets =>
    exact (by decide : Pairs (startWord itemize ++ newline) (newline ++ stopWord itemize))
  | str | rule | rawInline | rawBlock => exact balanced_nil.pairs balanced_nil

theorem balanced_markup (n : Node) (h : ∀ m ∈ walk [n], m.HoldsBalanced) :
    n.markup.Balanced := by
  rw [forall_walk_singleton] at h
  induction n using childInduction with
  | step n ih =>
    obtain ⟨hown, hchildren⟩ := h
    have htext : (n.ownText?.getD []).Balanced := by
      cases ht : n.ownText? with
      | none => exact balanced_nil
      | some t => exact hown.1 t ht
    have hmarkups : n.childrenMarkup.Balanced := by
      refine n.balanced_separator.joinWith fun t ht => ?_
      obtain ⟨c, hc, rfl⟩ := List.mem_map.mp ht
      have hchild := ih c hc (forall_walk_singleton.mp (hchildren c hc))
      exact hchild.congr (n.braces_childMarkup c).symm
    rw [markup_eq]
    exact (pairs_opening_closing hown.2).balanced (htext.append hmarkups)

end Node

/-! ## The law -/

namespace Slide

open Text Markup

/-- If all texts and languages in a node are balanced, then so is the markup
of the node, and so is the frame of a slide of such nodes. What else is left
over in markup is just what the texts leave over and twice what the languages
leave over. -/
theorem rendering_closes_the_groups_that_it_opens :
    (∀ n : Node, (∀ m ∈ Node.walk [n], m.HoldsBalanced) → n.markup.Balanced) ∧
    (∀ s : Slide, (∀ n ∈ s, ∀ m ∈ Node.walk [n], m.HoldsBalanced) → s.frame.Balanced) ∧
    ∀ n : Node, n.markup.excess = ((Node.walk [n]).map Node.ownExcess).sum := by
  refine ⟨fun n h => n.balanced_markup h, fun s h => ?_, fun n => n.excess_markup⟩
  have hline : newline.Balanced := by decide
  have hbody : s.body.Balanced := by
    rw [body_eq]
    refine hline.joinWith fun t ht => ?_
    obtain ⟨n, hn, rfl⟩ := List.mem_map.mp ht
    exact n.balanced_markup (h n hn)
  have hopens : (Template.slideStart ++ newline).Balanced := by decide
  have hcloses : (newline ++ Template.slideStop).Balanced := by decide
  rw [frame_lines]
  exact hopens.append (hbody.append hcloses)

/-- A quoted header with code behind it, whose language has braces. -/
def groupedNode : Node :=
  .styled .quote [.header ⟨1, Nat.one_pos⟩ [] [.str (Text.ofString "\x7ba\x7d")],
    .codeBlock (some (Text.ofString "c\x7b\x7d")) (Text.ofString "\x7b \x7d \x7b\x7d")]

theorem rendering_closes_the_groups_that_it_opens_quoted :
    (∀ m ∈ Node.walk [groupedNode], m.HoldsBalanced) ∧ groupedNode.markup.Balanced ∧
      (frame [groupedNode]).Balanced := by
  have h : ∀ m ∈ Node.walk [groupedNode], m.HoldsBalanced := by decide
  obtain ⟨hnode, hslide, -⟩ := rendering_closes_the_groups_that_it_opens
  exact ⟨h, hnode groupedNode h, hslide [groupedNode] (List.forall_mem_singleton.mpr h)⟩

end Slide

end Lectern
