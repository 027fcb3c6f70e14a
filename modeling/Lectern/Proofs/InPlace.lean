-- Sessions whose lists are changed in place. A list of tokens is known by
-- its place in a store, a slide is such a place, and the loop over the
-- tokens makes slides where it needs them. No two slides, and no slide and
-- the list of tokens, are ever in one place. So a list that is changed shows
-- the change nowhere else, and the sessions answer as those that copy do.
import Mathlib.Data.List.Nodup
import Lectern.Proofs.Changes
import Lectern.Proofs.Segmentation

namespace Lectern.Session

/-! ## The store -/

/-- Lists of tokens, each in the place where it was made. -/
abbrev Store := List (List Token)

/-- The list in a place. -/
def Store.read (store : Store) (place : Nat) : List Token := (store[place]?).getD []

namespace Store

variable {store : Store} {place other : Nat} {f : List Token → List Token}

theorem read_make_old (ts : List Token) (h : place < store.length) :
    read (store ++ [ts]) place = store.read place := by
  rw [read, List.getElem?_append_left h]
  rfl

theorem read_make_new (ts : List Token) : read (store ++ [ts]) store.length = ts := by
  rw [read, List.getElem?_concat_length, Option.getD_some]

theorem read_modify_self (h : place < store.length) :
    read (store.modify place f) place = f (store.read place) := by
  simp [read, List.getElem?_eq_getElem h]

/-- A list that is changed leaves the other places alone. -/
theorem read_modify_other (h : other ≠ place) :
    read (store.modify place f) other = store.read other := by
  simp [read, h.symm]

end Store

/-! ## Sessions in place -/

/-- A session whose lists are in a store. -/
structure InPlace where
  config : Config
  fresh : Nat
  store : Store
  /-- The place of the tokens. -/
  tokens : Nat
  /-- The places of the slides. -/
  slides : List Nat

namespace InPlace

/-- The session before the first step, with an empty list for the tokens. -/
def start (config : Config) : InPlace := ⟨config, 0, [[]], 0, []⟩

/-- What a session in place shows. -/
def view (m : InPlace) : Session :=
  ⟨m.config, m.fresh, m.store.read m.tokens, m.slides.map m.store.read⟩

/-- Changes the list in a place. -/
def update (m : InPlace) (place : Nat) (f : List Token → List Token) : InPlace :=
  { m with store := m.store.modify place f }

/-- Makes a slide behind the others. -/
def openSlide (m : InPlace) (ts : List Token) : InPlace :=
  { m with store := m.store ++ [ts], slides := m.slides ++ [m.store.length] }

/-- Makes a list of nodes for the tokens. -/
def hold (m : InPlace) (nodes : List Node) : InPlace :=
  { m with
    fresh := m.fresh + nodes.length
    store := m.store ++ [Session.hold m.fresh nodes]
    tokens := m.store.length }

/-- What a token does to the deck when it comes. -/
def part (t : Token) : Boundary := t.node.boundary

/-- One turn of the loop over the tokens. -/
def turn (m : InPlace) (t : Token) : InPlace :=
  match m.slides.getLast?, part t with
  | none, .breaks => (m.openSlide []).openSlide []
  | none, .opens | none, .joins => m.openSlide [t]
  | some _, .opens => m.openSlide [t]
  | some _, .breaks => m.openSlide []
  | some last, .joins => m.update last (· ++ [t])

/-- Makes the slides anew. -/
def cut (m : InPlace) : InPlace := (m.store.read m.tokens).foldl turn { m with slides := [] }

/-- The session after a change. -/
def apply (m : InPlace) : Change → InPlace
  | .nothing => m
  | .add n => { m.update m.tokens (· ++ [⟨m.fresh, n⟩]) with fresh := m.fresh + 1 }
  | .replace nodes => m.hold nodes
  | .drop place => m.update m.tokens (·.eraseIdx place)
  | .cut => m.cut
  | .push slide t =>
    match m.slides[slide]? with
    | some place => m.update place (· ++ [t])
    | none => m
  | .newSlide ts => m.openSlide ts
  | .configure config => { m with config }
  | .convert nodes => (m.hold nodes).cut

/-- One step that succeeds, or the fault of it. -/
def step (m : InPlace) (st : Step) : Except Fault (InPlace × Reply) :=
  (m.view.plan st).map fun p => (m.apply p.1, p.2)

/-- The session after a step. -/
def next (m : InPlace) (st : Step) : InPlace :=
  match m.step st with
  | .ok (m', _) => m'
  | .error _ => m

/-- What each step of a run answers, and what the session shows after it. -/
def run (m : InPlace) : List Step → List (Except Fault Reply × Session)
  | [] => []
  | st :: rest => ((m.step st).map Prod.snd, (m.next st).view) :: run (m.next st) rest

/-! ## No list is in two hands -/

/-- The lists of a session are in places of their own. -/
structure Apart (m : InPlace) : Prop where
  nodup : (m.tokens :: m.slides).Nodup
  made : ∀ place ∈ m.tokens :: m.slides, place < m.store.length

variable {m : InPlace}

theorem Apart.update (h : m.Apart) (place : Nat) (f : List Token → List Token) :
    (m.update place f).Apart := by
  refine ⟨h.nodup, ?_⟩
  intro a ha
  rw [InPlace.update, List.length_modify]
  exact h.made a ha

theorem Apart.openSlide (h : m.Apart) (ts : List Token) : (m.openSlide ts).Apart := by
  have hnew : m.store.length ∉ m.tokens :: m.slides := fun hmem => (h.made _ hmem).false
  constructor
  · rw [InPlace.openSlide, ← List.cons_append]
    exact List.nodup_append.mpr ⟨h.nodup, List.nodup_singleton _, by grind⟩
  · intro a ha
    have := h.made a
    simp only [InPlace.openSlide, List.mem_cons, List.mem_append, List.length_append,
      List.length_singleton, List.not_mem_nil, or_false] at ha this ⊢
    grind

theorem Apart.hold (h : m.Apart) (nodes : List Node) : (m.hold nodes).Apart := by
  have hnew : m.store.length ∉ m.slides := fun hmem =>
    (h.made _ (List.mem_cons_of_mem _ hmem)).false
  constructor
  · exact List.nodup_cons.mpr ⟨hnew, (List.nodup_cons.mp h.nodup).2⟩
  · intro a ha
    have := h.made a
    simp only [InPlace.hold, List.mem_cons, List.length_append, List.length_singleton] at ha this ⊢
    grind

theorem Apart.clear (h : m.Apart) : Apart { m with slides := [] } :=
  ⟨List.nodup_singleton _, fun a ha => h.made a (List.mem_cons.mpr (.inl (by simpa using ha)))⟩

theorem Apart.tokens_lt (h : m.Apart) : m.tokens < m.store.length :=
  h.made _ List.mem_cons_self

theorem Apart.slide_lt (h : m.Apart) {place : Nat} (hp : place ∈ m.slides) :
    place < m.store.length :=
  h.made _ (List.mem_cons_of_mem _ hp)

theorem Apart.ne_tokens (h : m.Apart) {place : Nat} (hp : place ∈ m.slides) :
    place ≠ m.tokens := by
  rintro rfl
  exact (List.nodup_cons.mp h.nodup).1 hp

/-! ## A change in place shows in one place -/

theorem Apart.view_update_tokens (h : m.Apart) (f : List Token → List Token) :
    (m.update m.tokens f).view = { m.view with tokens := f m.view.tokens } := by
  have hslides : m.slides.map (m.update m.tokens f).store.read = m.slides.map m.store.read :=
    List.map_congr_left fun a ha => Store.read_modify_other (h.ne_tokens ha)
  simp only [InPlace.view, InPlace.update] at hslides ⊢
  rw [hslides, Store.read_modify_self h.tokens_lt]

theorem Apart.view_update_slide (h : m.Apart) {slide place : Nat}
    (hp : m.slides[slide]? = some place) (f : List Token → List Token) :
    (m.update place f).view = { m.view with slides := m.view.slides.modify slide f } := by
  have hmem := List.mem_of_getElem? hp
  have hslides : m.slides.map (m.update place f).store.read =
      (m.slides.map m.store.read).modify slide f := by
    apply List.ext_getElem?
    intro i
    rw [List.getElem?_modify, List.getElem?_map, List.getElem?_map]
    by_cases hi : slide = i
    · subst hi
      simp [hp, InPlace.update, Store.read_modify_self (h.slide_lt hmem)]
    · -- No two slides are in one place, so the list of this one is another.
      have hne : ∀ a, m.slides[i]? = some a → a ≠ place := by
        rintro a ha rfl
        have hlt := (List.getElem?_eq_some_iff.mp ha).1
        exact hi ((List.getElem?_inj hlt (List.nodup_cons.mp h.nodup).2).mp (ha.trans hp.symm)).symm
      cases ha : m.slides[i]? with
      | none => rfl
      | some a => simp [hi, InPlace.update, Store.read_modify_other (hne a ha)]
  simp only [InPlace.view, InPlace.update] at hslides ⊢
  rw [hslides, Store.read_modify_other (h.ne_tokens hmem).symm]

theorem Apart.map_read_make (h : m.Apart) (ts : List Token) :
    m.slides.map (Store.read (m.store ++ [ts])) = m.slides.map m.store.read :=
  List.map_congr_left fun _ ha => Store.read_make_old ts (h.slide_lt ha)

theorem Apart.view_openSlide (h : m.Apart) (ts : List Token) :
    (m.openSlide ts).view = { m.view with slides := m.view.slides ++ [ts] } := by
  simp only [InPlace.view, InPlace.openSlide, List.map_append, List.map_cons, List.map_nil]
  rw [h.map_read_make, Store.read_make_old ts h.tokens_lt, Store.read_make_new]

theorem Apart.view_hold (h : m.Apart) (nodes : List Node) :
    (m.hold nodes).view = m.view.replace nodes := by
  simp only [InPlace.view, InPlace.hold, replace]
  rw [h.map_read_make, Store.read_make_new]

/-! ## The loop over the tokens -/

theorem modify_concat {α : Type} (before : List α) (last : α) (f : α → α) :
    (before ++ [last]).modify before.length f = before ++ [f last] := by
  induction before with
  | nil => rfl
  | cons a before ih => rw [List.cons_append, List.length_cons, List.modify_succ_cons, ih]; rfl

/-- A turn of the loop in place makes the deck grow as a turn on copies does. -/
theorem Apart.turn (h : m.Apart) (t : Token) :
    (m.turn t).Apart ∧
      (m.turn t).view = { m.view with slides := Slide.grow part m.view.slides t } := by
  rcases List.eq_nil_or_concat m.slides with hs | ⟨before, last, hs⟩
  · have hview : m.view.slides = [] := by rw [view, hs, List.map_nil]
    have hlast : m.slides.getLast? = none := by rw [hs, List.getLast?_nil]
    rcases hb : part t with _ | _ | _ <;>
      simp only [InPlace.turn, hlast, hb, Slide.grow, hview, List.isEmpty_nil, if_true]
    · exact ⟨h.openSlide _, by rw [h.view_openSlide, hview]⟩
    · refine ⟨(h.openSlide _).openSlide _, ?_⟩
      rw [(h.openSlide _).view_openSlide, h.view_openSlide, hview]
      rfl
    · exact ⟨h.openSlide _, by rw [h.view_openSlide, hview]; rfl⟩
  · have hview : m.view.slides = before.map m.store.read ++ [m.store.read last] := by
      rw [view, hs, List.concat_eq_append, List.map_append, List.map_singleton]
    have hlast : m.slides.getLast? = some last := by
      rw [hs, List.concat_eq_append, List.getLast?_concat]
    rcases hb : part t with _ | _ | _ <;> simp only [InPlace.turn, hlast, hb]
    · exact ⟨h.openSlide _, by rw [h.view_openSlide, Slide.grow_opens hb]⟩
    · refine ⟨h.openSlide _, ?_⟩
      rw [h.view_openSlide, Slide.grow_breaks hb (by simp [hview])]
    · refine ⟨h.update _ _, ?_⟩
      have hplace : m.slides[before.length]? = some last := by
        rw [hs, List.concat_eq_append, List.getElem?_concat_length]
      rw [h.view_update_slide hplace, hview, Slide.grow_joins _ _ hb]
      have hlast := modify_concat (before.map m.store.read) (m.store.read last) (· ++ [t])
      rw [List.length_map] at hlast
      rw [hlast]

theorem Apart.foldl_turn (h : m.Apart) (ts : List Token) :
    (ts.foldl InPlace.turn m).Apart ∧
      (ts.foldl InPlace.turn m).view =
        { m.view with slides := ts.foldl (Slide.grow part) m.view.slides } := by
  induction ts generalizing m with
  | nil => exact ⟨h, rfl⟩
  | cons t ts ih =>
    obtain ⟨ht, hview⟩ := h.turn t
    obtain ⟨hts, hviews⟩ := ih ht
    exact ⟨hts, by rw [List.foldl_cons, hviews, hview]; rfl⟩

theorem Apart.cut (h : m.Apart) :
    m.cut.Apart ∧ m.cut.view = { m.view with slides := cutTokens m.view.tokens } := by
  obtain ⟨hcut, hview⟩ := h.clear.foldl_turn (m.store.read m.tokens)
  refine ⟨hcut, hview.trans ?_⟩
  rw [cutTokens, Slide.segmentBy_eq_foldl]
  rfl

/-! ## Runs -/

/-- A change in place shows as the change of what was shown. -/
theorem Apart.apply (h : m.Apart) (c : Change) :
    (m.apply c).Apart ∧ (m.apply c).view = m.view.apply c := by
  cases c with
  | nothing => exact ⟨h, rfl⟩
  | configure config => exact ⟨⟨h.nodup, h.made⟩, rfl⟩
  | add n =>
    have hview := h.view_update_tokens (· ++ [⟨m.fresh, n⟩])
    exact ⟨⟨h.nodup, (h.update m.tokens _).made⟩,
      congrArg (fun s => { s with fresh := m.fresh + 1 }) hview⟩
  | replace nodes => exact ⟨h.hold nodes, h.view_hold nodes⟩
  | drop place => exact ⟨h.update _ _, h.view_update_tokens _⟩
  | cut => exact h.cut
  | push slide t =>
    simp only [InPlace.apply]
    cases hp : m.slides[slide]? with
    | some place => exact ⟨h.update _ _, h.view_update_slide hp _⟩
    | none =>
      refine ⟨h, ?_⟩
      have hlength : m.view.slides.length ≤ slide := by
        simpa [view] using hp
      rw [Session.apply, List.modify_eq_self hlength]
  | newSlide ts => exact ⟨h.openSlide ts, h.view_openSlide ts⟩
  | convert nodes =>
    obtain ⟨hcut, hview⟩ := (h.hold nodes).cut
    exact ⟨hcut, by rw [InPlace.apply, hview, h.view_hold]; rfl⟩

theorem apart_start (config : Config) : (start config).Apart :=
  ⟨List.nodup_singleton 0, by simp [start]⟩

/-- A step in place answers as a step on copies does. -/
theorem Apart.step (h : m.Apart) (st : Step) :
    (m.step st).map (fun p => (p.1.view, p.2)) = m.view.step st := by
  rw [InPlace.step, step_eq_plan]
  cases m.view.plan st with
  | error f => rfl
  | ok p => exact congrArg (fun s => Except.ok (s, p.2)) (h.apply p.1).2

theorem Apart.next (h : m.Apart) (st : Step) :
    (m.next st).Apart ∧ (m.next st).view = m.view.next st := by
  rw [InPlace.next, InPlace.step, next_eq_plan]
  cases m.view.plan st with
  | error f => exact ⟨h, rfl⟩
  | ok p => exact h.apply p.1

/-- The session after steps. -/
def after (m : InPlace) (steps : List Step) : InPlace := steps.foldl next m

theorem Apart.after (h : m.Apart) (steps : List Step) :
    (m.after steps).Apart ∧ (m.after steps).view = m.view.after steps := by
  induction steps generalizing m with
  | nil => exact ⟨h, rfl⟩
  | cons st steps ih =>
    obtain ⟨hst, hview⟩ := h.next st
    obtain ⟨hsteps, hviews⟩ := ih hst
    exact ⟨hsteps, by rw [hview] at hviews; exact hviews⟩

/-- A session in place and one that copies answer alike and show the same
after each step. -/
theorem Apart.run (h : m.Apart) (steps : List Step) : m.run steps = m.view.run steps := by
  induction steps generalizing m with
  | nil => rfl
  | cons st steps ih =>
    obtain ⟨hst, hview⟩ := h.next st
    have hreply : (m.step st).map Prod.snd = (m.view.step st).map Prod.snd := by
      rw [← h.step st]
      cases m.step st <;> rfl
    rw [InPlace.run, Session.run, ih hst, hview, hreply]

end InPlace

end Lectern.Session
