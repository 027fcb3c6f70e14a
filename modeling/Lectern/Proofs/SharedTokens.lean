-- Slides and tokens. Slides hold the very tokens of the list, each in its
-- turn, and share nothing else with the list or with each other. So what is
-- done to a slide shows on that slide alone, and a new cut undoes it.
import Lectern.Proofs.InPlace
import Lectern.Proofs.OpenCalls

namespace Lectern

/-! ## Places in a list -/

section Places

variable {α : Type}

/-- A place in a list of lists, counted through. -/
theorem getElem?_flatten_of_bind {xss : List (List α)} {k i : Nat} {x : α}
    (h : xss[k]?.bind (·[i]?) = some x) :
    xss.flatten[(xss.take k).flatten.length + i]? = some x := by
  obtain ⟨xs, hk, hi⟩ := Option.bind_eq_some_iff.mp h
  have hxs : (xss.drop k).head? = some xs := by rw [List.head?_drop, hk]
  obtain ⟨more, hdrop⟩ := List.head?_eq_some_iff.mp hxs
  have hlt := (List.getElem?_eq_some_iff.mp hi).1
  have hsplit : xss.flatten = (xss.take k).flatten ++ (xs ++ more.flatten) := by
    rw [← List.flatten_cons, ← hdrop, ← List.flatten_append, List.take_append_drop]
  rw [hsplit, List.getElem?_append_right (Nat.le_add_right _ _), Nat.add_sub_cancel_left,
    List.getElem?_append_left hlt, hi]

/-- The entries that pass a test are numbered by how many of them come
before. -/
theorem getElem?_filter {p : α → Bool} {xs : List α} {n : Nat} {x : α} :
    (xs.filter p)[n]? = some x ↔
      ∃ i, xs[i]? = some x ∧ p x = true ∧ (xs.take i).countP p = n := by
  induction xs generalizing n with
  | nil => simp
  | cons y xs ih =>
    constructor
    · intro h
      by_cases hy : p y = true
      · rw [List.filter_cons_of_pos hy] at h
        cases n with
        | zero => exact ⟨0, h, by cases h; exact hy, rfl⟩
        | succ n =>
          obtain ⟨i, hi, hp, hcount⟩ := ih.mp h
          exact ⟨i + 1, hi, hp, by rw [List.take_succ_cons, List.countP_cons_of_pos hy, hcount]⟩
      · rw [List.filter_cons_of_neg hy] at h
        obtain ⟨i, hi, hp, hcount⟩ := ih.mp h
        exact ⟨i + 1, hi, hp, by rw [List.take_succ_cons, List.countP_cons_of_neg hy, hcount]⟩
    · rintro ⟨i, hi, hp, rfl⟩
      cases i with
      | zero =>
        cases hi
        rw [List.filter_cons_of_pos hp]
        rfl
      | succ i =>
        have hrest := ih.mpr ⟨i, hi, hp, rfl⟩
        by_cases hy : p y = true
        · rw [List.filter_cons_of_pos hy, List.take_succ_cons, List.countP_cons_of_pos hy]
          exact hrest
        · rw [List.filter_cons_of_neg hy, List.take_succ_cons, List.countP_cons_of_neg hy]
          exact hrest

end Places

/-- The token is one that slides keep: any but a rule. -/
def Token.isKept (t : Token) : Bool := t.node.tag ≠ .rule

namespace Session

/-! ## Tokens on slides -/

/-- The token at a place on a slide. -/
def onSlide? (s : Session) (slide index : Nat) : Option Token := s.slides[slide]?.bind (·[index]?)

/-- A place on a slide and a place in the list hold one token. -/
def Shares (s : Session) (slide index token : Nat) : Prop :=
  ∃ x y, s.onSlide? slide index = some x ∧ s.tokens[token]? = some y ∧ x.id = y.id

/-- A place in the list holds the kept token of this number. -/
def Numbered (s : Session) (token number : Nat) : Prop :=
  ∃ y, s.tokens[token]? = some y ∧ y.isKept ∧ (s.tokens.take token).countP Token.isKept = number

/-- How many tokens stand on the slides before a slide. -/
def before (s : Session) (slide : Nat) : Nat := (s.slides.take slide).flatten.length

/-- The slides hold the tokens of the list, each kept token in its turn. -/
structure HoldsItsTokens (s : Session) : Prop where
  inOrder : s.slides.flatten = s.tokens.filter Token.isKept
  /-- A token on a slide is that one token of the list whose turn it is. -/
  itself : ∀ slide index token, (s.onSlide? slide index).isSome →
    (s.Shares slide index token ↔ s.Numbered token (s.before slide + index))

/-- The step cuts the tokens into slides. -/
def Step.cuts : Step → Bool
  | .segment | .convert _ => true
  | _ => false

theorem flatten_cutTokens (tokens : List Token) :
    (cutTokens tokens).flatten = tokens.filter Token.isKept := by
  rw [cutTokens, Slide.flatten_segmentBy]
  apply List.filter_congr
  intro t _
  simp only [Token.isKept, ne_eq, Node.boundary_eq_breaks, Node.tag_eq_rule]

/-- A cut puts the tokens themselves on the slides. -/
theorem Distinct.holdsItsTokens {s : Session} (h : s.Distinct)
    (hcut : s.slides = cutTokens s.tokens) : s.HoldsItsTokens := by
  have hflat : s.slides.flatten = s.tokens.filter Token.isKept := by
    rw [hcut, flatten_cutTokens]
  refine ⟨hflat, ?_⟩
  intro slide index token hsome
  obtain ⟨x, hx⟩ := Option.isSome_iff_exists.mp hsome
  have hturn := getElem?_flatten_of_bind hx
  rw [hflat] at hturn
  constructor
  · -- The turn of `x` names one place in the list, and `x` is in no other.
    rintro ⟨x', y, hx', hy, hid⟩
    cases hx.symm.trans hx'
    obtain ⟨place, hplace, hkept, hcount⟩ := getElem?_filter.mp hturn
    have hxy : x = y := List.inj_on_of_nodup_map h.nodup (List.mem_of_getElem? hplace)
      (List.mem_of_getElem? hy) hid
    subst hxy
    have hlt := (List.getElem?_eq_some_iff.mp hplace).1
    obtain rfl := (List.getElem?_inj hlt h.nodup.of_map).mp (hplace.trans hy.symm)
    exact ⟨x, hplace, hkept, hcount⟩
  · rintro ⟨y, hy, hkept, hcount⟩
    have hnumber := getElem?_filter.mpr ⟨token, hy, hkept, hcount⟩
    cases hturn.symm.trans hnumber
    exact ⟨x, x, hx, hy, rfl⟩

theorem Distinct.holdsItsTokens_of_step {s s' : Session} (h : s.Distinct) {st : Step} {r : Reply}
    (hcuts : st.cuts = true) (hst : s.step st = .ok (s', r)) : s'.HoldsItsTokens := by
  rw [← next_of_ok hst]
  apply (h.next st).holdsItsTokens
  rw [step_eq_plan] at hst
  cases hp : s.plan st with
  | error f =>
    rw [hp] at hst
    cases hst
  | ok p =>
    obtain ⟨c, reply⟩ := p
    rw [next_eq_plan, hp]
    cases makes_of_plan hp with
    | segment | convert => rfl
    | read hread => cases st <;> cases hcuts <;> cases hread
    | _ => cases hcuts

/-! ## Asking for a token -/

theorem place?_natCast (length i : Nat) :
    place? length i = if i < length then some i else none := by
  simp [place?, show ¬ (i : Int) < 0 by omega]

theorem fetch_natCast {α : Type} (xs : List α) (i : Nat) (x : α) :
    fetch xs i = .ok x ↔ xs[i]? = some x := by
  rw [fetch, at?, place?_natCast]
  by_cases hi : i < xs.length
  · simp [hi]
  · simp [hi]

/-- To ask whether a place on a slide holds a token tells what they share. -/
theorem step_same_iff (s : Session) (slide index token : Nat) :
    s.step (.same slide index token) = .ok (s, .truth true) ↔ s.Shares slide index token := by
  constructor
  · intro h
    obtain ⟨onSlide, hslide, h⟩ := bind_eq_ok.mp h
    obtain ⟨x, hx, h⟩ := bind_eq_ok.mp h
    obtain ⟨y, hy, h⟩ := bind_eq_ok.mp h
    rw [fetch_natCast] at hslide hx hy
    have hanswer := Reply.truth.inj (Prod.mk.inj (Except.ok.inj h)).2
    exact ⟨x, y, by rw [onSlide?, hslide]; exact hx, hy, of_decide_eq_true hanswer⟩
  · rintro ⟨x, y, hx, hy, hid⟩
    obtain ⟨onSlide, hslide, hx⟩ := Option.bind_eq_some_iff.mp hx
    refine bind_eq_ok.mpr ⟨onSlide, (fetch_natCast _ _ _).mpr hslide, ?_⟩
    refine bind_eq_ok.mpr ⟨x, (fetch_natCast _ _ _).mpr hx, ?_⟩
    refine bind_eq_ok.mpr ⟨y, (fetch_natCast _ _ _).mpr hy, ?_⟩
    rw [hid, decide_eq_true rfl]
    rfl

/-! ## What steps leave alone -/

/-- What the steps from a session on leave alone. -/
structure Framed (s : Session) : Prop where
  /-- A push changes the slide that it names and no other. -/
  push : ∀ slide token s' r, s.step (.push slide token) = .ok (s', r) →
    ∃ i t, place? s.slides.length slide = some i ∧ fetch s.tokens token = .ok t ∧
      s'.slides[i]? = s.slides[i]?.map (· ++ [t]) ∧ ∀ j ≠ i, s'.slides[j]? = s.slides[j]?
  /-- A new slide comes behind the others. -/
  newSlide : ∀ tokens s' r, s.step (.newSlide tokens) = .ok (s', r) →
    ∃ ts, tokens.mapM (fetch s.tokens) = .ok ts ∧ s'.slides = s.slides ++ [ts]
  tokens : ∀ st : Step, st.changesTokens = false → (s.next st).tokens = s.tokens
  slides : ∀ st : Step, st.changesSlides = false → (s.next st).slides = s.slides
  /-- Steps that leave the tokens alone leave nothing behind after a new cut. -/
  recut : ∀ steps : List Step, (∀ st ∈ steps, st.changesTokens = false) →
    ((s.after steps).next .segment).slides = (s.next .segment).slides
  /-- A step that fails changes nothing. -/
  failed : ∀ st f, s.step st = .error f → s.next st = s

theorem after_tokens {s : Session} {steps : List Step}
    (h : ∀ st ∈ steps, st.changesTokens = false) : (s.after steps).tokens = s.tokens := by
  induction steps generalizing s with
  | nil => rfl
  | cons st steps ih =>
    obtain ⟨hst, hsteps⟩ := List.forall_mem_cons.mp h
    exact (ih hsteps).trans (next_tokens hst)

theorem framed (s : Session) : s.Framed where
  push slide token s' r h := by
    obtain ⟨i, t, hi, ht, hs⟩ := exists_of_step_push h
    refine ⟨i, t, hi, ht, by rw [hs, List.getElem?_modify_eq]; rfl, ?_⟩
    intro j hj
    rw [hs, List.getElem?_modify_ne _ _ hj.symm]
  newSlide tokens s' r h := exists_of_step_newSlide h
  tokens st h := next_tokens h
  slides st h := next_slides h
  recut steps h := congrArg cutTokens (after_tokens h)
  failed st f h := next_of_error h

/-! ## The law -/

/-- Slides share the nodes of the document and nothing else. Whatever steps
a session has come through, its tokens are distinct, and a step that cuts
them puts the tokens themselves on the slides, each kept one in its turn. A
push shows on one slide and a new slide comes behind the others. Neither
touches the tokens, so a new cut is as if there had been none. To build, load
or drop tokens touches no slide, and a step that fails touches nothing.
Sessions that change their lists in place answer and show the same, and no
two of their lists are ever one. -/
theorem slides_share_the_nodes_and_nothing_else {config : Config} {steps : List Step}
    {s : Session} (reached : (start config).after steps = s) :
    (∀ st, (start config).run (steps ++ [st]) =
      (start config).run steps ++ [((s.step st).map Prod.snd, s.next st)]) ∧
    s.Distinct ∧
    (∀ st s' r, st.cuts = true → s.step st = .ok (s', r) → s'.HoldsItsTokens) ∧
    (∀ slide index token : Nat,
      s.step (.same slide index token) = .ok (s, .truth true) ↔ s.Shares slide index token) ∧
    s.Framed ∧
    ((InPlace.start config).after steps).Apart ∧
    ((InPlace.start config).after steps).view = s ∧
    (InPlace.start config).run steps = (start config).run steps := by
  have hdistinct : s.Distinct := by
    rw [← reached]
    exact (distinct_start config).after steps
  obtain ⟨hapart, hview⟩ := (InPlace.apart_start config).after steps
  refine ⟨?_, hdistinct, ?_, step_same_iff s, framed s, hapart, hview.trans reached, ?_⟩
  · intro st
    rw [run_snoc, reached]
  · intro st s' r hcuts hst
    exact hdistinct.holdsItsTokens_of_step hcuts hst
  · exact (InPlace.apart_start config).run steps

/-- A record of a word in a text. -/
def wordRecord : Text := Text.ofString "\x7b\"t\":\"Str\",\"c\":\"k\"\x7d"

/-- A document of a word, a rule and the word again. -/
def twoWords : Text :=
  Text.ofString "[\x7b\x7d,[" ++ wordRecord
    ++ Text.ofString ",\x7b\"t\":\"HorizontalRule\"\x7d," ++ wordRecord ++ Text.ofString "]]"

/-- A session that has converted the document, with the second word put on
the first slide. -/
def sharedWord : Session :=
  let word : Node := .str (Text.ofString "k")
  { config := .standard
    fresh := 3
    tokens := [⟨0, word⟩, ⟨1, .rule⟩, ⟨2, word⟩]
    slides := [[⟨0, word⟩, ⟨2, word⟩], [⟨2, word⟩]] }

theorem after_twoWords : (start .standard).after [.convert twoWords, .push 0 2] = sharedWord := by
  have hconvert : Conversion.ofText Config.standard twoWords =
      .ok (.plain Config.standard ⟨[], sharedWord.nodes⟩) :=
    Conversion.ofText_of_read rfl rfl (by decide) (by decide)
  have hstep : (start .standard).step (.convert twoWords) =
      .ok ({ (start .standard).replace sharedWord.nodes with
        slides := cutTokens (hold 0 sharedWord.nodes) },
        .converted 2 (Config.standard.deck (Slide.segment sharedWord.nodes))) := by
    simp only [step, start, hconvert]
    rfl
  simp only [after, List.foldl_cons, List.foldl_nil, next_of_ok hstep]
  rfl

/-- The second word is on both slides before the cut. After it the second
slide alone holds it, and not the first word, which is equal to it. -/
theorem slides_share_the_nodes_and_nothing_else_equal_words :
    ∃ s s' r, (start .standard).after [.convert twoWords, .push 0 2] = s ∧ s.Shares 0 1 2 ∧
      s.step .segment = .ok (s', r) ∧ s'.onSlide? 0 1 = none ∧
      s'.Shares 1 0 2 ∧ ¬ s'.Shares 1 0 0 := by
  have law := slides_share_the_nodes_and_nothing_else after_twoWords
  refine ⟨_, _, _, after_twoWords, (law.2.2.2.1 0 1 2).mp rfl, rfl, rfl, ?_⟩
  have held := law.2.2.1 .segment _ _ rfl rfl
  constructor
  · exact (held.itself 1 0 2 rfl).mpr ⟨_, rfl, rfl, rfl⟩
  · intro h
    obtain ⟨y, hy, hkept, hcount⟩ := (held.itself 1 0 0 rfl).mp h
    cases hcount

end Session

end Lectern
