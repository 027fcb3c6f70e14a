-- Texts written right behind one another. A closing word at the end of one
-- runs on into the next if that begins with a letter, and then it closes
-- another environment than the one it should. A text is sound if nothing of
-- the kind is in it, and broken if it is, and what is made of such texts is
-- again sound or broken.
import Mathlib.Data.List.Induction
import Lectern.Node.Markup
import Lectern.Proofs.ControlWords

namespace Lectern

namespace Text

/-! ## The word at the end of a text -/

/-- The text ends in this control word, but for blanks. -/
def TrailsOffIn (t word : Text) : Prop :=
  ∃ before behind, t = before ++ CodePoint.backslash :: (word ++ behind) ∧
    word.Letters ∧ ∀ c ∈ behind, c.isBlank

/-- The word at the end of the text, if there is one, closes an environment
or has nothing to do with any. -/
def Settled (t : Text) : Prop :=
  ∀ word, t.TrailsOffIn word → word.Inert ∨ ∃ name, word = stopName ++ name

/-- The text ends in a word that closes an environment. -/
def EndsInClosing (t : Text) : Prop := ∃ name, t.EndsIn (stopName ++ name)

/-- The closing word at the end of a text runs on into the next. -/
def RunsInto (a b : Text) : Prop := a.EndsInClosing ∧ b.OpensWithLetter

/-- Among texts written one behind the other, a closing word runs on. -/
def RunsOn (ts : List Text) : Prop :=
  ∃ left right, ts = left ++ right ∧ RunsInto left.flatten right.flatten

theorem EndsIn.trailsOffIn {t word : Text} (h : t.EndsIn word) : t.TrailsOffIn word := by
  obtain ⟨before, rfl, hw⟩ := h
  exact ⟨before, [], by rw [List.append_nil], hw, by simp⟩

theorem Inert.append {word : Text} (h : word.Inert) (more : Text) : Inert (word ++ more) := by
  intro x
  rw [List.append_assoc]
  exact h (more ++ x)

/-- The word at the end of two texts ends the second, or it ends the first,
or its beginning does. -/
theorem TrailsOffIn.of_append {a b word : Text} (h : TrailsOffIn (a ++ b) word) :
    b.TrailsOffIn word ∨ ∃ first rest, word = first ++ rest ∧ a.TrailsOffIn first := by
  obtain ⟨before, behind, he, hw, hb⟩ := h
  rcases List.append_eq_append_iff.mp he with ⟨middle, -, hbe⟩ | ⟨middle, ha, hm⟩
  · exact .inl ⟨middle, behind, hbe, hw, hb⟩
  · cases middle with
    | nil => exact .inl ⟨[], behind, hm.symm, hw, hb⟩
    | cons c middle =>
      rw [List.cons_append, List.cons.injEq] at hm
      obtain ⟨rfl, hm⟩ := hm
      rcases List.append_eq_append_iff.mp hm with ⟨middle', rfl, rfl⟩ | ⟨rest, rfl, -⟩
      · exact .inr ⟨word, [], by simp, before, middle', ha, hw,
          fun c hc => hb c (List.mem_append_left b hc)⟩
      · have hfirst := (letters_append.mp hw).1
        exact .inr ⟨middle, rest, rfl, before, [], by simpa using ha, hfirst, by simp⟩

theorem Settled.append {a b : Text} (ha : a.Settled) (hb : b.Settled) : Settled (a ++ b) := by
  intro word hw
  rcases hw.of_append with hsecond | ⟨first, rest, rfl, hfirst⟩
  · exact hb word hsecond
  · rcases ha first hfirst with hi | ⟨name, rfl⟩
    · exact .inl (hi.append rest)
    · exact .inr ⟨name ++ rest, by rw [List.append_assoc]⟩

theorem notMem_of_blank {t : Text} (h : ∀ c ∈ t, c.isBlank) : CodePoint.backslash ∉ t := by
  intro hm
  have hblank := h _ hm
  exact absurd hblank (by decide)

theorem not_opensWithLetter_of_blank {t : Text} (h : ∀ c ∈ t, c.isBlank) :
    ¬ t.OpensWithLetter := by
  rintro ⟨c, rest, rfl, hc⟩
  have hblank := h c List.mem_cons_self
  simp [CodePoint.not_isBlank_of_isLetter hc] at hblank

theorem notMem_of_letters {t : Text} (h : t.Letters) : CodePoint.backslash ∉ t := by
  intro hm
  have hletter := h _ hm
  exact absurd hletter (by decide)

/-- What stands behind the last backslash of a text is fixed. -/
theorem eq_of_append_backslash {a b x y : Text} (hx : CodePoint.backslash ∉ x)
    (hy : CodePoint.backslash ∉ y)
    (h : a ++ CodePoint.backslash :: x = b ++ CodePoint.backslash :: y) : x = y := by
  have hcons : ∀ {c z w : Text}, CodePoint.backslash ∉ w →
      c ++ CodePoint.backslash :: z = CodePoint.backslash :: w → z = w := by
    intro c z w hw hc
    cases c with
    | nil => exact (List.cons.inj hc).2
    | cons _ c =>
      rw [List.cons_append, List.cons.injEq] at hc
      exact absurd (hc.2 ▸ List.mem_append_right c List.mem_cons_self) hw
  rcases List.append_eq_append_iff.mp h with ⟨middle, -, hm⟩ | ⟨middle, -, hm⟩
  · exact (hcons hx hm.symm).symm
  · exact hcons hy hm.symm

theorem takeWhile_letters_append {word behind : Text} (hw : word.Letters)
    (hb : ∀ c ∈ behind, c.isBlank) : (word ++ behind).takeWhile CodePoint.isLetter = word := by
  rw [List.takeWhile_append_of_pos hw,
    takeWhile_eq_nil_of_not_opensWithLetter (not_opensWithLetter_of_blank hb), List.append_nil]

theorem settled_stopName {name : Text} (before : Text) (hn : Letters (stopName ++ name)) :
    Settled (before ++ CodePoint.backslash :: (stopName ++ name)) := by
  rintro word ⟨before', behind, he, hw, hb⟩
  have hx : CodePoint.backslash ∉ word ++ behind := by
    rw [List.mem_append, not_or]
    exact ⟨notMem_of_letters hw, notMem_of_blank hb⟩
  have hlast := eq_of_append_backslash (notMem_of_letters hn) hx he
  have hword := takeWhile_letters_append hw hb
  rw [← hlast, List.takeWhile_eq_self_iff.mpr hn] at hword
  exact .inr ⟨name, hword.symm⟩

theorem TrailsOffIn.mem_controlWords {t word : Text} (h : t.TrailsOffIn word) :
    word ∈ t.controlWords := by
  obtain ⟨before, behind, rfl, hw, hb⟩ := h
  induction before with
  | nil =>
    rw [List.nil_append, controlWords, if_pos rfl, takeWhile_letters_append hw hb]
    exact List.mem_cons_self
  | cons c before ih =>
    rw [List.cons_append, controlWords]
    split
    · exact List.mem_cons_of_mem _ ih
    · exact ih

/-- Texts of which the first is settled are read one by one, unless the
first runs on into the second. -/
theorem Settled.brackets_append {a b : Text} (ha : a.Settled) (h : ¬ RunsInto a b) :
    (a ++ b).brackets = a.brackets ++ b.brackets := by
  refine Text.brackets_append fun hb word hw => ?_
  rcases ha word hw.trailsOffIn with hi | ⟨name, rfl⟩
  · exact hi
  · exact absurd ⟨⟨name, hw⟩, hb⟩ h

theorem EndsInClosing.append_left {b : Text} (h : b.EndsInClosing) (a : Text) :
    EndsInClosing (a ++ b) := by
  obtain ⟨name, before, rfl, hl⟩ := h
  exact ⟨name, a ++ before, by rw [List.append_assoc], hl⟩

theorem EndsInClosing.backslash_mem {t : Text} (h : t.EndsInClosing) :
    CodePoint.backslash ∈ t := by
  obtain ⟨name, before, rfl, -⟩ := h
  exact List.mem_append_right before List.mem_cons_self

theorem OpensWithLetter.append_right {a : Text} (h : a.OpensWithLetter) (b : Text) :
    OpensWithLetter (a ++ b) := by
  obtain ⟨c, rest, rfl, hc⟩ := h
  exact ⟨c, rest ++ b, rfl, hc⟩

/-! ## Sound texts and broken texts -/

/-- The brackets of the text are nested, and the word at its end can do no
harm but by running on. -/
structure Sound (t : Text) : Prop where
  settled : t.Settled
  nested : Nested t.brackets

/-- A closing word in the text runs on. What is in front of it can be read
with a stack. -/
def Broken (t : Text) : Prop :=
  ∃ a b, t = a ++ b ∧ a.RunsInto b ∧
    ∀ names, ∃ left, a.brackets.foldlM Bracket.step? names = some left

/-- The text is sound or broken. -/
def Decided (t : Text) : Prop := t.Sound ∨ t.Broken

theorem brackets_stopName {name : Text} (before : Text) (hn : Letters (stopName ++ name))
    (rest : Text) :
    brackets (before ++ CodePoint.backslash :: (stopName ++ name) ++ rest) =
      before.brackets ++ .closes (name ++ rest.takeWhile CodePoint.isLetter) :: rest.brackets := by
  rw [List.append_assoc, List.cons_append,
    brackets_append_of_not_opensWithLetter before (not_opensWithLetter_backslash _),
    brackets_word hn, List.append_assoc stopName, Bracket.ofWord?_stop]
  rfl

/-- No stack reads a broken text: the word that runs on closes a name that
is longer than the one that it ends. -/
theorem Broken.foldlM_eq_none {t : Text} (h : t.Broken) (names : List Text) :
    t.brackets.foldlM Bracket.step? names = none := by
  obtain ⟨_, b, rfl, ⟨⟨name, before, rfl, hn⟩, c, rest, rfl, hc⟩, hread⟩ := h
  obtain ⟨left, hleft⟩ := hread names
  have hshort := brackets_stopName before hn []
  rw [List.append_nil, List.takeWhile_nil, List.append_nil] at hshort
  rw [hshort, List.foldlM_append] at hleft
  obtain ⟨stack, hbefore, hstep⟩ := Option.bind_eq_some_iff.mp hleft
  rw [brackets_stopName before hn, List.foldlM_append, hbefore, List.takeWhile_cons, if_pos hc]
  cases stack with
  | nil => rfl
  | cons top stack =>
    have htop : name = top := by
      by_contra hne
      simp [Bracket.step?, hne, brackets, controlWords] at hstep
    have hne : name ++ c :: rest.takeWhile CodePoint.isLetter ≠ top := by
      rw [← htop]
      simp
    show (Bracket.step? (top :: stack) _ >>= _) = none
    rw [Bracket.step?, if_neg hne]
    rfl

theorem Broken.not_nested {t : Text} (h : t.Broken) : ¬ Nested t.brackets := by
  intro hn
  have hsome := hn.foldlM []
  rw [h.foldlM_eq_none] at hsome
  cases hsome

theorem Broken.not_sound {t : Text} (h : t.Broken) : ¬ t.Sound :=
  fun hs => h.not_nested hs.nested

/-- Among sound and broken texts, those with nested brackets are sound. -/
theorem Decided.sound_iff {t : Text} (h : t.Decided) : t.Sound ↔ Nested t.brackets :=
  ⟨Sound.nested, fun hn => h.resolve_right fun hb => hb.not_nested hn⟩

theorem sound_of_inert {t : Text} (h : ∀ word ∈ t.controlWords, word.Inert) : t.Sound where
  settled word hw := .inl (h word hw.mem_controlWords)
  nested := by
    have hnil : t.brackets = [] := by
      apply List.filterMap_eq_nil_iff.mpr
      intro word hw
      have hi := h word hw []
      rwa [List.append_nil] at hi
    rw [hnil]
    exact .nil

theorem sound_of_notMem {t : Text} (h : CodePoint.backslash ∉ t) : t.Sound := by
  apply sound_of_inert
  rw [controlWords_eq_nil h]
  simp

theorem Sound.append {a b : Text} (ha : a.Sound) (hb : b.Sound) (h : ¬ RunsInto a b) :
    Sound (a ++ b) where
  settled := ha.settled.append hb.settled
  nested := by
    rw [ha.settled.brackets_append h]
    exact ha.nested.append hb.nested

theorem Sound.broken_append {a b : Text} (ha : a.Sound) (h : RunsInto a b) : Broken (a ++ b) :=
  ⟨a, b, rfl, h, fun names => ⟨names, ha.nested.foldlM names⟩⟩

theorem Broken.append_right {a : Text} (h : a.Broken) (b : Text) : Broken (a ++ b) := by
  obtain ⟨a, rest, rfl, ⟨hc, ho⟩, hread⟩ := h
  exact ⟨a, rest ++ b, by rw [List.append_assoc], ⟨hc, ho.append_right b⟩, hread⟩

theorem Broken.append_left {a b : Text} (hb : b.Broken) (ha : a.Sound) (h : ¬ RunsInto a b) :
    Broken (a ++ b) := by
  obtain ⟨first, rest, rfl, ⟨hc, ho⟩, hread⟩ := hb
  refine ⟨a ++ first, rest, by rw [List.append_assoc], ⟨hc.append_left a, ho⟩, fun names => ?_⟩
  have hfirst : ¬ RunsInto a first := fun hr => h ⟨hr.1, hr.2.append_right rest⟩
  rw [ha.settled.brackets_append hfirst, List.foldlM_append, ha.nested.foldlM]
  exact hread names

theorem Decided.append {a b : Text} (ha : a.Decided) (hb : b.Decided) : Decided (a ++ b) := by
  rcases ha with ha | ha
  · by_cases h : RunsInto a b
    · exact .inr (ha.broken_append h)
    · exact hb.imp (fun hb => ha.append hb h) fun hb => hb.append_left ha h
  · exact .inr (ha.append_right b)

/-- Two texts are sound one behind the other if each is and the first does
not run on into the second. -/
theorem sound_append_iff {a b : Text} (ha : a.Decided) (hb : b.Decided) :
    Sound (a ++ b) ↔ a.Sound ∧ b.Sound ∧ ¬ RunsInto a b := by
  constructor
  · intro hs
    have hfirst : a.Sound := ha.resolve_right fun h => (h.append_right b).not_sound hs
    have hrun : ¬ RunsInto a b := fun h => (hfirst.broken_append h).not_sound hs
    have hsecond : b.Sound := hb.resolve_right fun h => (h.append_left hfirst hrun).not_sound hs
    exact ⟨hfirst, hsecond, hrun⟩
  · rintro ⟨hfirst, hsecond, hrun⟩
    exact hfirst.append hsecond hrun

/-! ## Many texts -/

theorem not_runsOn_nil : ¬ RunsOn [] := by
  rintro ⟨left, right, he, hc, -⟩
  obtain ⟨rfl, rfl⟩ := List.append_eq_nil_iff.mp he.symm
  exact absurd hc.backslash_mem List.not_mem_nil

theorem runsOn_snoc {ts : List Text} {t : Text} :
    RunsOn (ts ++ [t]) ↔ RunsOn ts ∨ RunsInto ts.flatten t := by
  constructor
  · rintro ⟨left, right, he, hc, ho⟩
    rcases List.eq_nil_or_concat right with rfl | ⟨right, t', rfl⟩
    · obtain ⟨c, rest, hnil, -⟩ := ho
      cases hnil
    · rw [List.concat_eq_append] at he ho
      rw [← List.append_assoc] at he
      obtain ⟨rfl, ht⟩ := List.append_inj' he rfl
      obtain rfl : t = t' := List.singleton_inj.mp ht
      rw [List.flatten_append, List.flatten_singleton] at ho
      cases hr : right.flatten with
      | nil =>
        rw [hr, List.nil_append] at ho
        rw [List.flatten_append, hr, List.append_nil]
        exact .inr ⟨hc, ho⟩
      | cons c rest =>
        rw [hr] at ho
        obtain ⟨_, _, he, hl⟩ := ho
        cases he
        exact .inl ⟨left, right, rfl, hc, c, rest, hr, hl⟩
  · rintro (⟨left, right, rfl, hc, ho⟩ | ⟨hc, ho⟩)
    · refine ⟨left, right ++ [t], by rw [List.append_assoc], hc, ?_⟩
      rw [List.flatten_append]
      exact ho.append_right _
    · exact ⟨ts, [t], rfl, hc, by rwa [List.flatten_singleton]⟩

theorem decided_flatten {ts : List Text} (h : ∀ t ∈ ts, t.Decided) : Decided ts.flatten := by
  induction ts with
  | nil => exact .inl (sound_of_notMem List.not_mem_nil)
  | cons t ts ih =>
    rw [List.flatten_cons]
    exact (h t List.mem_cons_self).append (ih fun t ht => h t (List.mem_cons_of_mem _ ht))

/-- Texts are sound one behind the other if each is and none runs on. -/
theorem sound_flatten_iff {ts : List Text} (h : ∀ t ∈ ts, t.Decided) :
    Sound ts.flatten ↔ (∀ t ∈ ts, t.Sound) ∧ ¬ RunsOn ts := by
  induction ts using List.reverseRecOn with
  | nil => exact ⟨fun _ => ⟨by simp, not_runsOn_nil⟩, fun _ => sound_of_notMem List.not_mem_nil⟩
  | append_singleton ts t ih =>
    have hts : ∀ t ∈ ts, t.Decided := fun t ht => h t (List.mem_append_left _ ht)
    have ht : t.Decided := h t (List.mem_append_right _ List.mem_cons_self)
    rw [List.flatten_append, List.flatten_singleton, sound_append_iff (decided_flatten hts) ht,
      ih hts, runsOn_snoc]
    simp only [List.mem_append, List.mem_singleton, or_imp, forall_and, forall_eq, not_or]
    tauto

/-- Texts with a line end between them are sound if each is. -/
theorem decided_joinWith {ts : List Text} (h : ∀ t ∈ ts, t.Decided) :
    (joinWith Markup.newline ts).Decided ∧
      ((joinWith Markup.newline ts).Sound ↔ ∀ t ∈ ts, t.Sound) := by
  have hline : Sound Markup.newline := sound_of_notMem (by decide)
  have hopens : ∀ t : Text, ¬ OpensWithLetter (Markup.newline ++ t) :=
    not_opensWithLetter_append (by decide) (by decide)
  have hcloses : ∀ t, ¬ RunsInto Markup.newline t := fun t h =>
    absurd h.1.backslash_mem (by decide)
  induction ts with
  | nil => exact ⟨.inl (sound_of_notMem List.not_mem_nil), by simp [joinWith, sound_of_notMem]⟩
  | cons t ts ih =>
    have ht := h t List.mem_cons_self
    cases ts with
    | nil => simpa [joinWith] using ht
    | cons t' ts =>
      obtain ⟨hs, hiff⟩ := ih fun t ht => h t (List.mem_cons_of_mem _ ht)
      have hrest : Decided (Markup.newline ++ joinWith Markup.newline (t' :: ts)) :=
        .append (.inl hline) hs
      have hjoin : joinWith Markup.newline (t :: t' :: ts) =
          t ++ (Markup.newline ++ joinWith Markup.newline (t' :: ts)) := by
        rw [joinWith, List.intercalate_cons_cons, List.append_assoc]
        rfl
      rw [hjoin, sound_append_iff ht hrest, sound_append_iff (.inl hline) hs, hiff]
      refine ⟨ht.append hrest, ?_⟩
      constructor
      · rintro ⟨hfirst, ⟨-, hmore, -⟩, -⟩
        exact List.forall_mem_cons.mpr ⟨hfirst, hmore⟩
      · intro hall
        obtain ⟨hfirst, hmore⟩ := List.forall_mem_cons.mp hall
        exact ⟨hfirst, ⟨hline, hmore, hcloses _⟩, fun hr => hopens _ hr.2⟩

/-! ## Strips -/

theorem EndsInClosing.of_append {a b : Text} (h : EndsInClosing (a ++ b))
    (ha : CodePoint.backslash ∉ a) : b.EndsInClosing := by
  obtain ⟨name, before, he, hn⟩ := h
  rcases List.append_eq_append_iff.mp he with ⟨middle, rfl, hb⟩ | ⟨middle, rfl, hm⟩
  · exact ⟨name, middle, hb, hn⟩
  · cases middle with
    | nil => exact ⟨name, [], hm.symm, hn⟩
    | cons c middle =>
      rw [List.cons_append, List.cons.injEq] at hm
      exact absurd (hm.1 ▸ List.mem_append_right before List.mem_cons_self) ha

theorem Broken.of_append_left {a b : Text} (h : Broken (a ++ b)) (ha : CodePoint.backslash ∉ a) :
    b.Broken := by
  obtain ⟨first, rest, he, ⟨hc, ho⟩, hread⟩ := h
  rcases List.append_eq_append_iff.mp he with ⟨middle, rfl, hb⟩ | ⟨middle, rfl, -⟩
  · refine ⟨middle, rest, hb, ⟨hc.of_append ha, ho⟩, fun names => ?_⟩
    have hmiddle := hread names
    rwa [brackets_append_of_notMem ha] at hmiddle
  · exact absurd (List.mem_append_left middle hc.backslash_mem) ha

theorem Broken.of_append_right {a b : Text} (h : Broken (a ++ b)) (hb : ∀ c ∈ b, c.isBlank) :
    a.Broken := by
  obtain ⟨first, rest, he, ⟨hc, ho⟩, hread⟩ := h
  rcases List.append_eq_append_iff.mp he with ⟨middle, -, rfl⟩ | ⟨middle, ha, rfl⟩
  · have hrest : ∀ c ∈ rest, c.isBlank := fun c hc => hb c (List.mem_append_right middle hc)
    exact absurd ho (not_opensWithLetter_of_blank hrest)
  · refine ⟨first, middle, ha, ⟨hc, ?_⟩, hread⟩
    cases middle with
    | nil => exact absurd ho (not_opensWithLetter_of_blank hb)
    | cons c middle =>
      obtain ⟨_, _, he, hl⟩ := ho
      cases he
      exact ⟨c, middle, rfl, hl⟩

theorem Broken.strip {t : Text} (h : t.Broken) : t.strip.Broken := by
  obtain ⟨before, behind, hbefore, hbehind, ht⟩ := exists_strip t
  rw [ht] at h
  exact (h.of_append_left (notMem_of_blank hbefore)).of_append_right hbehind

theorem brackets_strip (t : Text) : t.strip.brackets = t.brackets := by
  obtain ⟨before, behind, hbefore, hbehind, ht⟩ := exists_strip t
  have hread : (before ++ (t.strip ++ behind)).brackets = t.strip.brackets := by
    rw [brackets_append_of_notMem (notMem_of_blank hbefore),
      brackets_append_of_not_opensWithLetter _ (not_opensWithLetter_of_blank hbehind),
      brackets_eq_nil (notMem_of_blank hbehind), List.append_nil]
  rw [← hread, ← ht]

theorem Sound.strip {t : Text} (h : t.Sound) : t.strip.Sound where
  settled := by
    rintro word ⟨first, rest, he, hw, hr⟩
    obtain ⟨before, behind, -, hbehind, ht⟩ := exists_strip t
    refine h.settled word ⟨before ++ first, rest ++ behind, ?_, hw, fun c hc => ?_⟩
    · rw [ht, he]
      simp
    · exact (List.mem_append.mp hc).elim (hr c) (hbehind c)
  nested := by
    rw [brackets_strip]
    exact h.nested

theorem Decided.strip {t : Text} (h : t.Decided) : t.strip.Decided := h.imp .strip .strip

theorem sound_strip_iff {t : Text} (h : t.Decided) : t.strip.Sound ↔ t.Sound :=
  ⟨fun hs => h.resolve_right fun hb => hb.strip.not_sound hs, .strip⟩

end Text

end Lectern
