-- What the steps of a session change. A step that succeeds makes one change,
-- and all that can fail comes before it. Whatever the steps, no two tokens
-- have one identity.
import Mathlib.Data.List.Nodup
import Lectern.Proofs.Building
import Lectern.Session

namespace Lectern

/-! ## What a cut keeps -/

namespace Slide

variable {α : Type} (boundary : α → Boundary)

theorem flatten_cut (ts : List α) :
    (cut boundary ts).1 ++ (cut boundary ts).2.flatten = ts.filter (boundary · ≠ .breaks) := by
  induction ts with
  | nil => rfl
  | cons t ts ih => rcases h : boundary t with _ | _ | _ <;> simpa [cut, h] using ih

/-- The slides hold the tokens in order, without those that break. -/
theorem flatten_segmentBy (ts : List α) :
    (segmentBy boundary ts).flatten = ts.filter (boundary · ≠ .breaks) := by
  cases ts with
  | nil => rfl
  | cons t ts =>
    have hts := flatten_cut boundary ts
    rcases h : boundary t with _ | _ | _ <;> simpa [segmentBy, h] using hts

end Slide

namespace Session

/-! ## Changes -/

/-- A change of a session. -/
inductive Change
  | nothing
  /-- A node comes behind the tokens. -/
  | add (n : Node)
  /-- Nodes come in place of the tokens. -/
  | replace (nodes : List Node)
  | drop (place : Nat)
  /-- The tokens are cut into slides. -/
  | cut
  /-- A token comes to the end of a slide. -/
  | push (slide : Nat) (t : Token)
  | newSlide (ts : List Token)
  | configure (config : Config)
  /-- Nodes come in place of the tokens and are cut into slides. -/
  | convert (nodes : List Node)

/-- The session after a change. -/
def apply (s : Session) : Change → Session
  | .nothing => s
  | .add n => { s with fresh := s.fresh + 1, tokens := s.tokens ++ [⟨s.fresh, n⟩] }
  | .replace nodes => s.replace nodes
  | .drop place => { s with tokens := s.tokens.eraseIdx place }
  | .cut => { s with slides := cutTokens s.tokens }
  | .push slide t => { s with slides := s.slides.modify slide (· ++ [t]) }
  | .newSlide ts => { s with slides := s.slides ++ [ts] }
  | .configure config => { s with config }
  | .convert nodes =>
    let s := s.replace nodes
    { s with slides := cutTokens s.tokens }

/-- What a step will change and what it answers, or its fault. -/
def plan (s : Session) : Step → Except Fault (Change × Reply)
  | .build t => do
    let v ← (Json.parse t).mapError Fault.json
    let n ← (Node.build v).mapError Fault.node
    return (.add n, .done)
  | .load t => do
    let v ← (Json.parse t).mapError Fault.json
    let d ← (Document.ofPayload v).mapError Fault.document
    return (.replace d.blocks, .done)
  | .drop token =>
    match place? s.tokens.length token with
    | some place => .ok (.drop place, .done)
    | none => .error .noSuch
  | .segment => .ok (.cut, .done)
  | .push slide token => do
    let t ← fetch s.tokens token
    match place? s.slides.length slide with
    | some i => return (.push i t, .done)
    | none => throw .noSuch
  | .newSlide tokens => do return (.newSlide (← tokens.mapM (fetch s.tokens)), .done)
  | .same slide index token => do
    let onSlide ← fetch (← fetch s.slides slide) index
    let t ← fetch s.tokens token
    return (.nothing, .truth (onSlide.id = t.id))
  | .equal => .ok (.nothing, .truth (s.deck = Slide.segment s.nodes))
  | .renderSlide slide => do
    let tokens ← fetch s.slides slide
    return (.nothing, .text (← rendered (Slide.render? (tokens.map Token.node))))
  | .renderDocument => do return (.nothing, .text (← rendered (s.config.render? s.deck)))
  | .walk => .ok (.nothing, .tags ((Node.walk s.nodes).map Node.tag))
  | .assign none => .ok (.nothing, .done)
  | .assign (some a) => .ok (.configure (s.config.assign a), .done)
  | .configure prologue epilogue rawBlocks => do
    let config ← (Config.make prologue epilogue rawBlocks).mapError Fault.config
    return (.configure config, .done)
  | .set token field => do
    let _ ← fetch s.tokens token
    throw (.field (Draft.setField field))
  | .convert t => do
    let c ← (Conversion.ofText s.config t).mapError Fault.conversion
    return (.convert c.document.blocks, .converted c.slides.length c.output)

/-- A step makes the change that it planned. -/
theorem step_eq_plan (s : Session) (st : Step) :
    s.step st = (s.plan st).map fun p => (s.apply p.1, p.2) := by
  cases st with
  | build t =>
    simp only [step, plan]
    cases Json.parse t with
    | error f => rfl
    | ok v =>
      dsimp only
      change _ = Except.map _ ((Node.build v).mapError Fault.node >>= _)
      cases Node.build v <;> rfl
  | load t =>
    simp only [step, plan]
    cases Json.parse t with
    | error f => rfl
    | ok v =>
      dsimp only
      change _ = Except.map _ ((Document.ofPayload v).mapError Fault.document >>= _)
      cases Document.ofPayload v <;> rfl
  | drop token =>
    simp only [step, plan]
    cases place? s.tokens.length token <;> rfl
  | segment | equal | walk => rfl
  | push slide token =>
    simp only [step, plan]
    cases fetch s.tokens token with
    | error f => rfl
    | ok t => cases place? s.slides.length slide <;> rfl
  | newSlide tokens =>
    simp only [step, plan]
    cases tokens.mapM (fetch s.tokens) <;> rfl
  | same slide index token =>
    simp only [step, plan]
    cases fetch s.slides slide with
    | error f => rfl
    | ok onSlide =>
      change (fetch onSlide index >>= _) = Except.map _ (fetch onSlide index >>= _)
      cases fetch onSlide index with
      | error f => rfl
      | ok x =>
        change (fetch s.tokens token >>= _) = Except.map _ (fetch s.tokens token >>= _)
        cases fetch s.tokens token <;> rfl
  | renderSlide slide =>
    simp only [step, plan]
    cases fetch s.slides slide with
    | error f => rfl
    | ok tokens =>
      change (rendered (Slide.render? (tokens.map Token.node)) >>= _) =
        Except.map _ (rendered (Slide.render? (tokens.map Token.node)) >>= _)
      cases rendered (Slide.render? (tokens.map Token.node)) <;> rfl
  | renderDocument =>
    simp only [step, plan]
    cases rendered (s.config.render? s.deck) <;> rfl
  | assign a => cases a <;> rfl
  | configure prologue epilogue rawBlocks =>
    simp only [step, plan]
    cases Config.make prologue epilogue rawBlocks <;> rfl
  | set token field =>
    simp only [step, plan]
    cases fetch s.tokens token <;> rfl
  | convert t =>
    simp only [step, plan]
    cases Conversion.ofText s.config t <;> rfl

theorem next_eq_plan (s : Session) (st : Step) :
    s.next st = match s.plan st with
      | .ok (c, _) => s.apply c
      | .error _ => s := by
  rw [next, step_eq_plan]
  cases s.plan st <;> rfl

/-! ## What a step changes -/

/-- The step reads and answers, and no more. -/
def Step.readsOnly : Step → Bool
  | .same _ _ _ | .equal | .renderSlide _ | .renderDocument | .walk | .assign none => true
  | _ => false

/-- A step of a session makes a change. -/
inductive Makes (s : Session) : Step → Change → Prop
  | build {t : Text} {n : Node} : Makes s (.build t) (.add n)
  | load {t : Text} {nodes : List Node} : Makes s (.load t) (.replace nodes)
  | drop {token : Int} {place : Nat} (h : place? s.tokens.length token = some place) :
    Makes s (.drop token) (.drop place)
  | segment : Makes s .segment .cut
  | push {slide token : Int} {i : Nat} {t : Token} (hslide : place? s.slides.length slide = some i)
    (htoken : fetch s.tokens token = .ok t) : Makes s (.push slide token) (.push i t)
  | newSlide {tokens : List Int} {ts : List Token} (h : tokens.mapM (fetch s.tokens) = .ok ts) :
    Makes s (.newSlide tokens) (.newSlide ts)
  | read {st : Step} (h : st.readsOnly = true) : Makes s st .nothing
  | assign {a : Config.Assignment} : Makes s (.assign (some a)) (.configure (s.config.assign a))
  | configure {prologue epilogue : Option Text} {rawBlocks : Option Json.Value} {config : Config} :
    Makes s (.configure prologue epilogue rawBlocks) (.configure config)
  | convert {t : Text} {nodes : List Node} : Makes s (.convert t) (.convert nodes)

/-- A step that succeeds makes a change that belongs to it. -/
theorem makes_of_plan {s : Session} {st : Step} {c : Change} {r : Reply}
    (h : s.plan st = .ok (c, r)) : Makes s st c := by
  cases st with
  | build t =>
    obtain ⟨v, -, h⟩ := bind_eq_ok.mp h
    obtain ⟨n, -, h⟩ := bind_eq_ok.mp h
    cases h
    exact .build
  | load t =>
    obtain ⟨v, -, h⟩ := bind_eq_ok.mp h
    obtain ⟨d, -, h⟩ := bind_eq_ok.mp h
    cases h
    exact .load
  | drop token =>
    simp only [plan] at h
    split at h <;> cases h
    exact .drop ‹_›
  | segment =>
    cases h
    exact .segment
  | push slide token =>
    obtain ⟨t, ht, h⟩ := bind_eq_ok.mp h
    split at h <;> cases h
    exact .push ‹_› ht
  | newSlide tokens =>
    obtain ⟨ts, hts, h⟩ := bind_eq_ok.mp h
    cases h
    exact .newSlide hts
  | same slide index token =>
    obtain ⟨onSlide, -, h⟩ := bind_eq_ok.mp h
    obtain ⟨x, -, h⟩ := bind_eq_ok.mp h
    obtain ⟨t, -, h⟩ := bind_eq_ok.mp h
    cases h
    exact .read rfl
  | renderSlide slide =>
    obtain ⟨ts, -, h⟩ := bind_eq_ok.mp h
    obtain ⟨output, -, h⟩ := bind_eq_ok.mp h
    cases h
    exact .read rfl
  | renderDocument =>
    obtain ⟨output, -, h⟩ := bind_eq_ok.mp h
    cases h
    exact .read rfl
  | equal | walk =>
    cases h
    exact .read rfl
  | assign a =>
    cases a <;> cases h
    · exact .read rfl
    · exact .assign
  | configure prologue epilogue rawBlocks =>
    obtain ⟨config, -, h⟩ := bind_eq_ok.mp h
    cases h
    exact .configure
  | set token field =>
    obtain ⟨t, -, h⟩ := bind_eq_ok.mp h
    cases h
  | convert t =>
    obtain ⟨d, -, h⟩ := bind_eq_ok.mp h
    cases h
    exact .convert

/-- A session after a step is as it was, or the step has made its change. -/
theorem next_cases (s : Session) (st : Step) :
    s.next st = s ∨ ∃ c, Makes s st c ∧ s.next st = s.apply c := by
  rw [next_eq_plan]
  cases h : s.plan st with
  | error f => exact .inl rfl
  | ok p => exact .inr ⟨p.1, makes_of_plan h, rfl⟩

theorem mem_of_fetch {α : Type} {xs : List α} {i : Int} {x : α} (h : fetch xs i = .ok x) :
    x ∈ xs := by
  unfold fetch at h
  split at h
  · rename_i y hy
    cases h
    obtain ⟨place, -, hplace⟩ := Option.bind_eq_some_iff.mp hy
    exact List.mem_of_getElem? hplace
  · cases h

/-! ## What a step leaves alone -/

/-- The step may change the tokens. -/
def Step.changesTokens : Step → Bool
  | .build _ | .load _ | .drop _ | .convert _ => true
  | _ => false

/-- The step may change the slides. -/
def Step.changesSlides : Step → Bool
  | .segment | .push _ _ | .newSlide _ | .convert _ => true
  | _ => false

theorem next_tokens {s : Session} {st : Step} (h : st.changesTokens = false) :
    (s.next st).tokens = s.tokens := by
  rcases s.next_cases st with hs | ⟨c, makes, hs⟩
  · rw [hs]
  · rw [hs]
    cases makes <;> first | rfl | cases h

theorem next_slides {s : Session} {st : Step} (h : st.changesSlides = false) :
    (s.next st).slides = s.slides := by
  rcases s.next_cases st with hs | ⟨c, makes, hs⟩
  · rw [hs]
  · rw [hs]
    cases makes <;> first | rfl | cases h

/-- A push that succeeds changes the slide that it names. -/
theorem exists_of_step_push {s s' : Session} {slide token : Int} {r : Reply}
    (h : s.step (.push slide token) = .ok (s', r)) :
    ∃ i t, place? s.slides.length slide = some i ∧ fetch s.tokens token = .ok t ∧
      s'.slides = s.slides.modify i (· ++ [t]) := by
  obtain ⟨t, ht, h⟩ := bind_eq_ok.mp h
  split at h <;> cases h
  exact ⟨_, t, ‹_›, ht, rfl⟩

/-- A new slide comes behind the others. -/
theorem exists_of_step_newSlide {s s' : Session} {tokens : List Int} {r : Reply}
    (h : s.step (.newSlide tokens) = .ok (s', r)) :
    ∃ ts, tokens.mapM (fetch s.tokens) = .ok ts ∧ s'.slides = s.slides ++ [ts] := by
  obtain ⟨ts, hts, h⟩ := bind_eq_ok.mp h
  cases h
  exact ⟨ts, hts, rfl⟩

/-! ## Identities -/

/-- The tokens that a session holds, in its list and on its slides. -/
def held (s : Session) : List Token := s.tokens ++ s.slides.flatten

/-- Identities tell the tokens apart. -/
structure Distinct (s : Session) : Prop where
  /-- No token stands twice in the list. -/
  nodup : (s.tokens.map Token.id).Nodup
  /-- What is said to be fresh is not in use. -/
  below : ∀ t ∈ s.held, t.id < s.fresh
  /-- What has one identity is one token. -/
  one : ∀ t ∈ s.held, ∀ u ∈ s.held, t.id = u.id → t = u

theorem map_id_hold (fresh : Nat) (nodes : List Node) :
    (hold fresh nodes).map Token.id = List.range' fresh nodes.length := by
  rw [hold, List.map_map]
  exact List.zipIdx_map_snd fresh nodes

theorem nodup_hold (fresh : Nat) (nodes : List Node) : ((hold fresh nodes).map Token.id).Nodup := by
  rw [map_id_hold]
  exact List.nodup_range'

theorem id_of_mem_hold {fresh : Nat} {nodes : List Node} {t : Token} (h : t ∈ hold fresh nodes) :
    fresh ≤ t.id ∧ t.id < fresh + nodes.length := by
  have ht := List.mem_map_of_mem (f := Token.id) h
  rw [map_id_hold] at ht
  simpa using ht

/-- What is held later was held before, or is new and has an identity that
was fresh. -/
theorem Distinct.extend {s s' : Session} (h : s.Distinct) (nodes : List Node)
    (hfresh : s'.fresh = s.fresh + nodes.length)
    (hheld : ∀ t ∈ s'.held, t ∈ s.held ∨ t ∈ hold s.fresh nodes)
    (hnodup : (s'.tokens.map Token.id).Nodup) : s'.Distinct := by
  refine ⟨hnodup, ?_, ?_⟩
  · intro t ht
    rcases hheld t ht with ht | ht
    · have := h.below t ht
      omega
    · have := id_of_mem_hold ht
      omega
  · intro t ht u hu he
    -- An old identity is below `fresh` and a new one is not, so only two old
    -- tokens or two new ones can have the same.
    rcases hheld t ht with ht | ht <;> rcases hheld u hu with hu | hu
    · exact h.one t ht u hu he
    · have := h.below t ht
      have := id_of_mem_hold hu
      omega
    · have := h.below u hu
      have := id_of_mem_hold ht
      omega
    · exact List.inj_on_of_nodup_map (nodup_hold s.fresh nodes) ht hu he

theorem mem_of_mem_cutTokens {tokens : List Token} {t : Token}
    (h : t ∈ (cutTokens tokens).flatten) : t ∈ tokens := by
  rw [cutTokens, Slide.flatten_segmentBy] at h
  exact (List.mem_filter.mp h).1

theorem mem_of_mem_modify {slides : List (List Token)} {i : Nat} {t u : Token}
    (h : u ∈ (slides.modify i (· ++ [t])).flatten) : u ∈ slides.flatten ∨ u = t := by
  induction slides generalizing i with
  | nil => simp at h
  | cons s slides ih =>
    cases i with
    | zero =>
      simp only [List.modify_zero_cons, List.flatten_cons, List.mem_append,
        List.mem_singleton] at h ⊢
      grind
    | succ i =>
      simp only [List.modify_succ_cons, List.flatten_cons, List.mem_append] at h ⊢
      rcases h with h | h
      · exact .inl (.inl h)
      · exact (ih h).imp_left .inr

/-- No step makes two of one token or one of two. -/
theorem Distinct.apply {s : Session} (h : s.Distinct) {st : Step} {c : Change}
    (makes : Makes s st c) : (s.apply c).Distinct := by
  cases makes with
  | read _ => exact h
  | assign | configure => exact ⟨h.nodup, h.below, h.one⟩
  | @build _ n =>
    refine h.extend [n] rfl ?_ ?_
    · intro t ht
      simp only [held, Session.apply, hold, List.mem_append] at ht ⊢
      grind
    · have hnew : s.fresh ∉ s.tokens.map Token.id := by
        intro hmem
        obtain ⟨t, ht, hid⟩ := List.mem_map.mp hmem
        have := h.below t (List.mem_append_left _ ht)
        omega
      simp only [Session.apply, List.map_append, List.map_cons, List.map_nil]
      exact List.nodup_append.mpr ⟨h.nodup, List.nodup_singleton _, by grind⟩
  | @load _ nodes =>
    refine h.extend nodes rfl ?_ (nodup_hold _ _)
    intro t ht
    simp only [held, Session.apply, replace, List.mem_append] at ht ⊢
    grind
  | @drop _ place _ =>
    refine h.extend [] rfl ?_ ?_
    · intro t ht
      simp only [held, Session.apply, List.mem_append] at ht ⊢
      have := List.mem_of_mem_eraseIdx (l := s.tokens) (i := place) (a := t)
      grind
    · exact h.nodup.sublist ((List.eraseIdx_sublist _ _).map _)
  | segment =>
    refine h.extend [] rfl ?_ h.nodup
    intro t ht
    simp only [held, Session.apply, List.mem_append] at ht ⊢
    exact .inl (.inl (ht.elim id mem_of_mem_cutTokens))
  | @push _ _ i t _ htoken =>
    refine h.extend [] rfl ?_ h.nodup
    intro u hu
    simp only [held, Session.apply, List.mem_append] at hu ⊢
    have : u ∈ (s.slides.modify i (· ++ [t])).flatten → u ∈ s.slides.flatten ∨ u = t :=
      mem_of_mem_modify
    have := mem_of_fetch htoken
    grind
  | @newSlide _ ts hts =>
    refine h.extend [] rfl ?_ h.nodup
    intro u hu
    have hmem : u ∈ ts → u ∈ s.tokens := by
      intro hu
      obtain ⟨i, hi⟩ := exists_of_mapM_eq_ok hts hu
      exact mem_of_fetch hi
    simp only [held, Session.apply, List.flatten_append, List.mem_append] at hu ⊢
    grind
  | @convert _ nodes =>
    refine h.extend nodes rfl ?_ (nodup_hold _ _)
    intro t ht
    simp only [held, Session.apply, replace, List.mem_append] at ht ⊢
    exact .inr (ht.elim id mem_of_mem_cutTokens)

/-! ## Runs -/

/-- The session after steps. -/
def after (s : Session) (steps : List Step) : Session := steps.foldl next s

/-- A run tells of each step what it answers and the session after it. -/
theorem run_snoc (s : Session) (steps : List Step) (st : Step) :
    s.run (steps ++ [st]) =
      s.run steps ++ [(((s.after steps).step st).map Prod.snd, (s.after steps).next st)] := by
  induction steps generalizing s with
  | nil => rfl
  | cons first steps ih =>
    rw [List.cons_append, run, run, ih]
    rfl

theorem distinct_start (config : Config) : (start config).Distinct :=
  ⟨List.nodup_nil, by simp [held, start], by simp [held, start]⟩

theorem Distinct.next {s : Session} (h : s.Distinct) (st : Step) : (s.next st).Distinct := by
  rcases s.next_cases st with hs | ⟨c, makes, hs⟩
  · rwa [hs]
  · rw [hs]
    exact h.apply makes

/-- Identities tell the tokens apart in every session. -/
theorem Distinct.after {s : Session} (h : s.Distinct) (steps : List Step) :
    (s.after steps).Distinct := by
  induction steps generalizing s with
  | nil => exact h
  | cons st steps ih => exact ih (h.next st)

end Session

end Lectern
