-- The laws of segmentation. A deck holds every node of its document but
-- the rules, and the rules can be put back: to join the slides undoes the
-- segmentation. The other way round, a segmentation undoes the joining of
-- those decks, and only those, that are well formed.
import Mathlib.Data.List.Induction
import Mathlib.Data.List.ModifyLast
import Mathlib.Data.Set.Function
import Lectern.Slide.Segmentation

namespace Lectern

/-! ## Boundaries -/

namespace Node

theorem tag_eq_rule (n : Node) : n.tag = .rule ↔ n = .rule := by
  cases n <;> simp [tag]

theorem boundary_eq_opens (n : Node) : n.boundary = .opens ↔ n.tag = .header := by
  cases n <;> simp [boundary, tag]

theorem boundary_eq_breaks (n : Node) : n.boundary = .breaks ↔ n = .rule := by
  cases n <;> simp [boundary]

/-- A node joins the slide that is open unless it is a rule or a header. -/
theorem boundary_eq_joins (n : Node) :
    n.boundary = .joins ↔ n.tag ≠ .rule ∧ n.tag ≠ .header := by
  cases n <;> simp [boundary, tag]

end Node

namespace Slide

/-! ## Segmentation as a loop -/

section Loop

variable {α : Type} (boundary : α → Boundary)

/-- One turn of the loop over the tokens: the deck after one token more. -/
def grow (deck : List (List α)) (t : α) : List (List α) :=
  match boundary t with
  | .opens => deck ++ [[t]]
  | .breaks => if deck.isEmpty then [[], []] else deck ++ [[]]
  | .joins => if deck.isEmpty then [[t]] else deck.modifyLast (· ++ [t])

variable {boundary}

theorem grow_opens {deck : List (List α)} {t : α} (h : boundary t = .opens) :
    grow boundary deck t = deck ++ [[t]] := by
  simp [grow, h]

theorem grow_breaks {deck : List (List α)} {t : α} (h : boundary t = .breaks) (hd : deck ≠ []) :
    grow boundary deck t = deck ++ [[]] := by
  simp [grow, h, hd]

theorem grow_joins (before : List (List α)) (last : List α) {t : α} (h : boundary t = .joins) :
    grow boundary (before ++ [last]) t = before ++ [last ++ [t]] := by
  simp [grow, h, List.modifyLast_concat]

theorem grow_cons (s : List α) {deck : List (List α)} (t : α) (hd : deck ≠ []) :
    grow boundary (s :: deck) t = s :: grow boundary deck t := by
  obtain ⟨before, last, rfl⟩ := List.eq_nil_or_concat deck |>.resolve_left hd
  rcases h : boundary t with _ | _ | _
  · simp [grow_opens h]
  · simp [grow_breaks h]
  · rw [List.concat_eq_append, grow_joins _ _ h, ← List.cons_append, grow_joins _ _ h,
      List.cons_append]

/-- A token in front of the first slide stays there while the deck grows. -/
theorem grow_cons_head {s s' : List α} {later later' : List (List α)} {t : α} (u : α)
    (h : grow boundary (s :: later) t = s' :: later') :
    grow boundary ((u :: s) :: later) t = (u :: s') :: later' := by
  by_cases hl : later = []
  · subst hl
    rcases hb : boundary t with _ | _ | _
    · simp_all [grow_opens hb]
    · simp_all [grow_breaks hb]
    · have h1 := grow_joins [] s hb
      have h2 := grow_joins [] (u :: s) hb
      simp_all
  · rw [grow_cons _ _ hl, List.cons.injEq] at h
    rw [grow_cons _ _ hl, ← h.1, ← h.2]

variable (boundary)

/-- A cut is one slide that is open and the slides after it. The next token
makes the deck of both grow. -/
theorem cut_snoc (ts : List α) (t : α) :
    (cut boundary (ts ++ [t])).1 :: (cut boundary (ts ++ [t])).2 =
      grow boundary ((cut boundary ts).1 :: (cut boundary ts).2) t := by
  induction ts with
  | nil =>
    rcases h : boundary t with _ | _ | _
    · simp [cut, h, grow_opens h]
    · simp [cut, h, grow_breaks h]
    · have := grow_joins [] [] h
      simp_all [cut]
  | cons u ts ih =>
    rcases hu : boundary u with _ | _ | _
    · simp only [List.cons_append, cut, hu]
      rw [grow_cons _ _ (by simp), grow_cons_head u ih.symm]
    · simp only [List.cons_append, cut, hu]
      rw [grow_cons _ _ (by simp), ih]
    · simp only [List.cons_append, cut, hu]
      rw [grow_cons_head u ih.symm]

/-- One token more at the end of a document is one turn of the loop. -/
theorem segmentBy_snoc (ts : List α) (t : α) :
    segmentBy boundary (ts ++ [t]) = grow boundary (segmentBy boundary ts) t := by
  cases ts with
  | nil => rcases h : boundary t with _ | _ | _ <;> simp [segmentBy, cut, grow, h]
  | cons u ts =>
    have hc := cut_snoc boundary ts t
    rcases hu : boundary u with _ | _ | _
    · simp only [List.cons_append, segmentBy, hu]
      rw [grow_cons_head u hc.symm]
    · simp only [List.cons_append, segmentBy, hu]
      rw [grow_cons _ _ (by simp), hc]
    · simp only [List.cons_append, segmentBy, hu]
      rw [grow_cons_head u hc.symm]

/-- Segmentation is the loop over all tokens, from the empty deck on. -/
theorem segmentBy_eq_foldl (ts : List α) : segmentBy boundary ts = ts.foldl (grow boundary) [] := by
  induction ts using List.reverseRecOn with
  | nil => rfl
  | append_singleton ts t ih => rw [segmentBy_snoc, ih, List.foldl_append, List.foldl_cons, List.foldl_nil]

variable {boundary}

/-- Tokens that join go to the last slide. -/
theorem foldl_grow_joins (before : List (List α)) (last : List α) {ts : List α}
    (h : ∀ t ∈ ts, boundary t = .joins) :
    ts.foldl (grow boundary) (before ++ [last]) = before ++ [last ++ ts] := by
  induction ts generalizing last with
  | nil => simp
  | cons t ts ih =>
    rw [List.foldl_cons, grow_joins _ _ (h t List.mem_cons_self),
      ih _ fun u hu => h u (List.mem_cons_of_mem t hu)]
    simp

end Loop

/-! ## Joining a deck -/

/-- Whether a slide begins with a header. -/
def headed : Slide → Bool
  | [] => false
  | n :: _ => n.tag = .header

/-- The nodes that a slide stands for when it is not the first. A header
opens a slide by itself, and every other slide needs a rule. -/
def withBreak (s : Slide) : List Node := if headed s then s else .rule :: s

/-- The nodes that a deck stands for, with the rules put back. -/
def join : List Slide → List Node
  | [] => []
  | first :: later => first ++ later.flatMap withBreak

/-- A deck that a document can have. -/
structure WellFormed (deck : List Slide) : Prop where
  noRule : ∀ s ∈ deck, ∀ n ∈ s, n.tag ≠ .rule
  /-- A header comes first on its slide. -/
  headerFirst : ∀ s ∈ deck, ∀ n ∈ s.tail, n.tag ≠ .header
  /-- A blank first slide comes from a rule, which opens the second slide. -/
  blankFirst : deck.head? = some [] → ∃ second, deck[1]? = some second ∧ headed second = false

theorem join_snoc (s : Slide) {deck : List Slide} (hd : deck ≠ []) :
    join (deck ++ [s]) = join deck ++ withBreak s := by
  cases deck with
  | nil => exact absurd rfl hd
  | cons first later => simp [join]

/-- A node that joins a slide is the last one of it in the document too. -/
theorem withBreak_snoc (s : Slide) {n : Node} (hn : n.boundary = .joins) :
    withBreak (s ++ [n]) = withBreak s ++ [n] := by
  cases s with
  | nil =>
    simp [withBreak, headed, (n.boundary_eq_joins.mp hn).2]
  | cons m s => by_cases h : m.tag = .header <;> simp [withBreak, headed, h]

/-- Each turn of the loop adds its node to what the deck stands for. -/
theorem join_grow (deck : List Slide) (n : Node) :
    join (grow Node.boundary deck n) = join deck ++ [n] := by
  rcases List.eq_nil_or_concat deck with rfl | ⟨before, last, rfl⟩
  · rcases h : n.boundary with _ | _ | _
    · simp [grow, h, join]
    · obtain rfl := (Node.boundary_eq_breaks n).mp h
      simp [grow, h, join, withBreak, headed]
    · simp [grow, h, join]
  · rcases h : n.boundary with _ | _ | _
    · rw [grow_opens h, join_snoc _ (by simp)]
      simp [withBreak, headed, (Node.boundary_eq_opens n).mp h]
    · rw [grow_breaks h (by simp), join_snoc _ (by simp), (Node.boundary_eq_breaks n).mp h]
      simp [withBreak, headed]
    · rw [List.concat_eq_append, grow_joins _ _ h]
      by_cases hb : before = []
      · simp [hb, join]
      · rw [join_snoc _ hb, join_snoc _ hb, withBreak_snoc _ h, List.append_assoc]

theorem join_segment (nodes : List Node) : join (segment nodes) = nodes := by
  induction nodes using List.reverseRecOn with
  | nil => rfl
  | append_singleton nodes n ih => rw [segment, segmentBy_snoc, join_grow, ← segment, ih]

/-! ## Well-formed decks -/

theorem wellFormed_nil : WellFormed [] := ⟨by simp, by simp, by simp⟩

theorem WellFormed.joins {deck : List Slide} (hw : WellFormed deck) {s : Slide} (hs : s ∈ deck) :
    ∀ n ∈ s.tail, n.boundary = .joins := fun n hn =>
  n.boundary_eq_joins.mpr
    ⟨hw.noRule s hs n (List.mem_of_mem_tail hn), hw.headerFirst s hs n hn⟩

/-- A slide may be added at the end, but a blank one not as the first. -/
theorem WellFormed.snoc {deck : List Slide} (hw : WellFormed deck) {s : Slide}
    (hr : ∀ n ∈ s, n.tag ≠ .rule) (hh : ∀ n ∈ s.tail, n.tag ≠ .header) (hb : deck = [] → s ≠ []) :
    WellFormed (deck ++ [s]) := by
  refine ⟨?_, ?_, ?_⟩
  · intro t ht
    rcases List.mem_append.mp ht with ht | ht
    · exact hw.noRule t ht
    · rw [List.mem_singleton.mp ht]
      exact hr
  · intro t ht
    rcases List.mem_append.mp ht with ht | ht
    · exact hw.headerFirst t ht
    · rw [List.mem_singleton.mp ht]
      exact hh
  · intro hblank
    cases deck with
    | nil => simp [hb rfl] at hblank
    | cons first later =>
      obtain ⟨second, hs, hn⟩ := hw.blankFirst (by simpa using hblank)
      refine ⟨second, ?_, hn⟩
      rw [List.getElem?_append_left (List.getElem?_eq_some_iff.mp hs).1, hs]

/-- A node that joins the last slide keeps the deck well formed. -/
theorem WellFormed.snoc_joins {before : List Slide} {last : Slide}
    (hw : WellFormed (before ++ [last])) {n : Node} (hn : n.boundary = .joins) :
    WellFormed (before ++ [last ++ [n]]) := by
  obtain ⟨hr, hh⟩ := n.boundary_eq_joins.mp hn
  refine ⟨?_, ?_, ?_⟩
  · intro t ht m hm
    rcases List.mem_append.mp ht with ht | ht
    · exact hw.noRule t (List.mem_append_left _ ht) m hm
    · rw [List.mem_singleton.mp ht] at hm
      rcases List.mem_append.mp hm with hm | hm
      · exact hw.noRule last (by simp) m hm
      · rw [List.mem_singleton.mp hm]
        exact hr
  · intro t ht m hm
    rcases List.mem_append.mp ht with ht | ht
    · exact hw.headerFirst t (List.mem_append_left _ ht) m hm
    · rw [List.mem_singleton.mp ht] at hm
      cases last with
      | nil => simp at hm
      | cons k last =>
        rcases List.mem_append.mp hm with hm | hm
        · exact hw.headerFirst (k :: last) (by simp) m hm
        · rw [List.mem_singleton.mp hm]
          exact hh
  · intro hblank
    match before with
    | [] => simp at hblank
    | [first] =>
      obtain ⟨second, hs, hsecond⟩ := hw.blankFirst (by simpa using hblank)
      obtain rfl : last = second := by simpa using hs
      refine ⟨last ++ [n], by simp, ?_⟩
      cases last with
      | nil => simp [headed, hh]
      | cons k last => exact hsecond
    | first :: second :: more =>
      exact hw.blankFirst (by simpa using hblank)

/-- Each turn of the loop keeps the deck well formed. -/
theorem WellFormed.grow {deck : List Slide} (hw : WellFormed deck) (n : Node) :
    WellFormed (grow Node.boundary deck n) := by
  rcases h : n.boundary with _ | _ | _
  · rw [grow_opens h]
    have := n.boundary_eq_opens.mp h
    exact hw.snoc (by simp [this]) (by simp) (by simp)
  · by_cases hd : deck = []
    · subst hd
      simp only [Slide.grow, h, List.isEmpty_nil, if_true]
      exact ⟨by simp, by simp, fun _ => ⟨[], rfl, rfl⟩⟩
    · rw [grow_breaks h hd]
      exact hw.snoc (by simp) (by simp) (fun he => absurd he hd)
  · rcases List.eq_nil_or_concat deck with rfl | ⟨before, last, rfl⟩
    · simp only [Slide.grow, h, List.isEmpty_nil, if_true]
      exact wellFormed_nil.snoc (by simp [n.boundary_eq_joins.mp h]) (by simp) (by simp)
    · rw [List.concat_eq_append] at hw ⊢
      rw [grow_joins _ _ h]
      exact hw.snoc_joins h

theorem wellFormed_segment (nodes : List Node) : WellFormed (segment nodes) := by
  induction nodes using List.reverseRecOn with
  | nil => exact wellFormed_nil
  | append_singleton nodes n ih =>
    rw [segment, segmentBy_snoc]
    exact ih.grow n

/-! ## From a deck to its document and back -/

theorem grow_rule {deck : List Slide} (hd : deck ≠ []) :
    grow Node.boundary deck .rule = deck ++ [[]] := grow_breaks rfl hd

/-- The loop over the nodes that a later slide stands for adds that slide. -/
theorem foldl_grow_withBreak {deck : List Slide} (hd : deck ≠ []) {s : Slide}
    (hr : ∀ n ∈ s, n.tag ≠ .rule) (hj : ∀ n ∈ s.tail, n.boundary = .joins) :
    (withBreak s).foldl (grow Node.boundary) deck = deck ++ [s] := by
  cases s with
  | nil => simp [withBreak, headed, grow_rule hd]
  | cons n s =>
    by_cases hn : n.tag = .header
    · simp only [withBreak, headed, hn, decide_true, if_true, List.foldl_cons]
      rw [grow_opens (n.boundary_eq_opens.mpr hn)]
      exact foldl_grow_joins deck [n] hj
    · have hb : n.boundary = .joins :=
        n.boundary_eq_joins.mpr ⟨hr n List.mem_cons_self, hn⟩
      simp only [withBreak, headed, hn, decide_false, Bool.false_eq_true, if_false]
      rw [List.foldl_cons, grow_rule hd, foldl_grow_joins deck [] (by simpa [hb] using hj)]
      rfl

theorem foldl_grow_later {later : List Slide} (hr : ∀ s ∈ later, ∀ n ∈ s, n.tag ≠ .rule)
    (hj : ∀ s ∈ later, ∀ n ∈ s.tail, n.boundary = .joins) {deck : List Slide} (hd : deck ≠ []) :
    (later.flatMap withBreak).foldl (grow Node.boundary) deck = deck ++ later := by
  induction later generalizing deck with
  | nil => simp
  | cons s later ih =>
    rw [List.flatMap_cons, List.foldl_append,
      foldl_grow_withBreak hd (hr s List.mem_cons_self) (hj s List.mem_cons_self),
      ih (fun t ht => hr t (List.mem_cons_of_mem s ht))
        (fun t ht => hj t (List.mem_cons_of_mem s ht)) (by simp)]
    simp

/-- The first slide opens with its first node. -/
theorem grow_nil {n : Node} (hr : n.tag ≠ .rule) : grow Node.boundary [] n = [[n]] := by
  rcases h : n.boundary with _ | _ | _
  · simp [grow, h]
  · exact absurd (n.tag_eq_rule.mpr (n.boundary_eq_breaks.mp h)) hr
  · simp [grow, h]

theorem segment_join {deck : List Slide} (hw : WellFormed deck) : segment (join deck) = deck := by
  rw [segment, segmentBy_eq_foldl]
  match deck with
  | [] => rfl
  | first :: later =>
    have hlater : ∀ start : List Slide, start ≠ [] →
        (later.flatMap withBreak).foldl (grow Node.boundary) start = start ++ later := fun _ =>
      foldl_grow_later (fun t ht => hw.noRule t (List.mem_cons_of_mem _ ht))
        fun t ht => hw.joins (List.mem_cons_of_mem _ ht)
    match first with
    | n :: s =>
      have hfirst : s.foldl (grow Node.boundary) [[n]] = [n :: s] :=
        foldl_grow_joins [] [n] (hw.joins List.mem_cons_self)
      rw [join, List.cons_append, List.foldl_cons, List.foldl_append,
        grow_nil (hw.noRule _ List.mem_cons_self n List.mem_cons_self), hfirst,
        hlater _ (by simp)]
      rfl
    | [] =>
      -- The second slide has no header, so a rule comes first, and it makes
      -- the same two slides of no slide as of a blank one.
      obtain ⟨second, hs, hn⟩ := hw.blankFirst rfl
      obtain ⟨more, rfl⟩ : ∃ more, later = second :: more := by
        cases later with
        | nil => simp at hs
        | cons t more => exact ⟨more, by simpa using hs⟩
      have hstart : (join ([] :: second :: more)).foldl (grow Node.boundary) [] =
          (join ([] :: second :: more)).foldl (grow Node.boundary) [[]] := by
        simp [join, withBreak, hn, grow, Node.boundary]
      rw [hstart, join, List.nil_append, hlater _ (by simp)]
      rfl

theorem segment_join_iff (deck : List Slide) : segment (join deck) = deck ↔ WellFormed deck := by
  constructor
  · intro h
    rw [← h]
    exact wellFormed_segment _
  · exact segment_join

theorem segment_bijOn : Set.BijOn segment Set.univ {deck | WellFormed deck} := by
  refine ⟨fun nodes _ => wellFormed_segment nodes, ?_, ?_⟩
  · intro a _ b _ h
    rw [← join_segment a, ← join_segment b]
    exact congrArg join h
  · intro deck hw
    exact ⟨join deck, trivial, segment_join hw⟩

/-! ## What becomes of the nodes and of the rules -/

theorem filter_withBreak {s : Slide} (hr : ∀ n ∈ s, n.tag ≠ .rule) :
    (withBreak s).filter (·.tag ≠ .rule) = s := by
  have hs : s.filter (·.tag ≠ .rule) = s := List.filter_eq_self.mpr (by simpa using hr)
  unfold withBreak
  split
  · exact hs
  · rw [List.filter_cons_of_neg (by simp [Node.tag]), hs]

/-- A deck holds what is left of its document without the rules. -/
theorem filter_join {deck : List Slide} (hw : WellFormed deck) :
    (join deck).filter (·.tag ≠ .rule) = deck.flatten := by
  cases deck with
  | nil => rfl
  | cons first later =>
    have hlater : (later.map fun s => (withBreak s).filter (·.tag ≠ .rule)) = later :=
      (List.map_congr_left fun s hs =>
        filter_withBreak (hw.noRule s (List.mem_cons_of_mem _ hs))).trans later.map_id
    have hfirst : first.filter (·.tag ≠ .rule) = first :=
      List.filter_eq_self.mpr (by simpa using hw.noRule first List.mem_cons_self)
    rw [join, List.filter_append, hfirst, List.filter_flatMap, List.flatMap_def, hlater]
    rfl

theorem flatten_segment (nodes : List Node) :
    (segment nodes).flatten = nodes.filter (·.tag ≠ .rule) := by
  rw [← filter_join (wellFormed_segment nodes), join_segment]

theorem countP_withBreak {s : Slide} (hr : ∀ n ∈ s, n.tag ≠ .rule) :
    (withBreak s).countP (·.tag = .rule) = if headed s then 0 else 1 := by
  have hs : s.countP (·.tag = .rule) = 0 := List.countP_eq_zero.mpr (by simpa using hr)
  unfold withBreak
  split
  · exact hs
  · rw [List.countP_cons_of_pos (by simp [Node.tag]), hs]

/-- Each slide behind the first that no header opens has a rule. -/
theorem countP_join {deck : List Slide} (hw : WellFormed deck) :
    (join deck).countP (·.tag = .rule) = deck.tail.countP (!headed ·) := by
  cases deck with
  | nil => rfl
  | cons first later =>
    have hfirst : first.countP (·.tag = .rule) = 0 :=
      List.countP_eq_zero.mpr (by simpa using hw.noRule first List.mem_cons_self)
    have hlater : ∀ s ∈ later, ∀ n ∈ s, n.tag ≠ .rule := fun s hs =>
      hw.noRule s (List.mem_cons_of_mem _ hs)
    rw [join, List.countP_append, hfirst, Nat.zero_add, List.tail_cons]
    clear hw
    induction later with
    | nil => rfl
    | cons s later ih =>
      rw [List.flatMap_cons, List.countP_append, countP_withBreak (hlater s List.mem_cons_self),
        ih fun t ht => hlater t (List.mem_cons_of_mem s ht), List.countP_cons]
      cases headed s <;> simp [Nat.add_comm]

/-- The first slide is blank if the document opens with a rule, and only then. -/
theorem head_segment_eq_nil (nodes : List Node) :
    (segment nodes).head? = some [] ↔ nodes.head? = some .rule := by
  constructor
  · intro h
    obtain ⟨second, hs, hn⟩ := (wellFormed_segment nodes).blankFirst h
    rw [← join_segment nodes]
    match hd : segment nodes with
    | [] | [_] => simp [hd] at hs
    | first :: t :: more =>
      obtain rfl : first = [] := by simpa [hd] using h
      obtain rfl : t = second := by simpa [hd] using hs
      simp [join, withBreak, hn]
  · intro h
    obtain ⟨more, rfl⟩ := List.head?_eq_some_iff.mp h
    simp [segment, segmentBy, Node.boundary]

/-! ## The law -/

/-- To join the slides of a document gives the document, and the decks that
come from their own joining are the well-formed ones. So segmentation is a
bijection. The nodes stay in order and only the rules go, and each rule
has a slide behind the first that no header opens. -/
theorem segmentation_loses_nothing :
    (∀ nodes, join (segment nodes) = nodes) ∧
    (∀ deck, segment (join deck) = deck ↔ WellFormed deck) ∧
    Set.BijOn segment Set.univ {deck | WellFormed deck} ∧
    ∀ nodes, (segment nodes).flatten = nodes.filter (·.tag ≠ .rule) ∧
      (segment nodes).tail.countP (!headed ·) = nodes.countP (·.tag = .rule) ∧
      ((segment nodes).head? = some [] ↔ nodes.head? = some .rule) := by
  refine ⟨join_segment, segment_join_iff, segment_bijOn, fun nodes => ⟨?_, ?_, ?_⟩⟩
  · rw [← filter_join (wellFormed_segment nodes), join_segment]
  · rw [← countP_join (wellFormed_segment nodes), join_segment]
  · exact head_segment_eq_nil nodes

end Slide

end Lectern
