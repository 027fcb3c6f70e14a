-- Sessions: a list of tokens and a deck that are worked on step by step.
-- Each token has an identity of its own. Slides hold the very tokens of the
-- list, not copies, so that a token on a slide can be told from an equal
-- one. A step that fails changes nothing.
import Lectern.Conversion
import Lectern.Draft.Check

namespace Lectern

/-- A node with an identity. -/
structure Token where
  id : Nat
  node : Node

/-- A session: its settings, its tokens and its slides. The identities from
`fresh` on are not in use. -/
structure Session where
  config : Config
  fresh : Nat
  tokens : List Token
  slides : List (List Token)

namespace Session

/-! ## Steps -/

/-- A step of a session. An index below zero counts from the end. -/
inductive Step
  /-- Adds the node of a record. -/
  | build (t : Text)
  /-- Takes the nodes of a payload in place of the tokens. -/
  | load (t : Text)
  | drop (token : Int)
  | segment
  /-- Puts a token at the end of a slide. -/
  | push (slide token : Int)
  | newSlide (tokens : List Int)
  /-- Asks whether a place on a slide holds a token itself. -/
  | same (slide index token : Int)
  /-- Asks whether the slides are those that a segmentation gives. -/
  | equal
  | renderSlide (slide : Int)
  | renderDocument
  | walk
  /-- Puts a setting in place, unless there is no such setting. -/
  | assign (a : Option Config.Assignment)
  /-- Makes the settings anew. -/
  | configure (prologue epilogue : Option Text) (rawBlocks : Option Json.Value)
  /-- Sets a field of a token, which is never allowed. -/
  | set (token : Int) (field : Text)
  /-- Converts a text, and keeps its tokens and its slides. -/
  | convert (t : Text)

/-- What a step answers. -/
inductive Reply
  | done
  | truth (b : Bool)
  | text (t : Text)
  | tags (tags : List Tag)
  | converted (slides : Nat) (output : Text)

/-- Why a step fails. -/
inductive Fault
  /-- An index is out of range. -/
  | noSuch
  | json (fault : Json.Fault)
  | node (fault : Node.Fault)
  | document (fault : Document.Fault)
  | config (fault : Config.Fault)
  | conversion (fault : Conversion.Fault)
  | field (problem : Draft.Problem)
  /-- Rendering breaks off. -/
  | overflow

/-! ## Indexes -/

/-- The place in a list of this length that an index stands for. -/
def place? (length : Nat) (i : Int) : Option Nat :=
  let j := if i < 0 then i + length else i
  if 0 ≤ j ∧ j < length then some j.toNat else none

/-- The entry at an index. -/
def at? {α : Type} (xs : List α) (i : Int) : Option α := (place? xs.length i).bind (xs[·]?)

/-- An entry at an index, or the fault that there is none. -/
def fetch {α : Type} (xs : List α) (i : Int) : Except Fault α :=
  match at? xs i with
  | some x => .ok x
  | none => .error .noSuch

/-! ## Tokens -/

/-- What is rendered, or the fault that rendering breaks off. -/
def rendered (output : Option Text) : Except Fault Text :=
  match output with
  | some t => .ok t
  | none => .error .overflow

/-- Nodes with fresh identities, in order. -/
def hold (fresh : Nat) (nodes : List Node) : List Token :=
  (nodes.zipIdx fresh).map fun p => ⟨p.2, p.1⟩

/-- The slides that tokens are cut into. -/
def cutTokens (tokens : List Token) : List (List Token) :=
  Slide.segmentBy (fun t => t.node.boundary) tokens

/-- The tokens of a session, replaced by nodes with fresh identities. -/
def replace (s : Session) (nodes : List Node) : Session :=
  { s with fresh := s.fresh + nodes.length, tokens := hold s.fresh nodes }

/-- The nodes of the tokens. -/
def nodes (s : Session) : List Node := s.tokens.map Token.node

/-- The nodes on the slides. -/
def deck (s : Session) : List Slide := s.slides.map fun slide => slide.map Token.node

/-- The session before the first step. -/
def start (config : Config) : Session := ⟨config, 0, [], []⟩

/-! ## Running -/

/-- One step that succeeds, or the fault of it. -/
def step (s : Session) : Step → Except Fault (Session × Reply)
  | .build t =>
    match Json.parse t with
    | .error f => .error (.json f)
    | .ok v =>
      match Node.build v with
      | .error f => .error (.node f)
      | .ok n =>
        .ok ({ s with fresh := s.fresh + 1, tokens := s.tokens ++ [⟨s.fresh, n⟩] }, .done)
  | .load t =>
    match Json.parse t with
    | .error f => .error (.json f)
    | .ok v =>
      match Document.ofPayload v with
      | .error f => .error (.document f)
      | .ok d => .ok (s.replace d.blocks, .done)
  | .drop token =>
    match place? s.tokens.length token with
    | some i => .ok ({ s with tokens := s.tokens.eraseIdx i }, .done)
    | none => .error .noSuch
  | .segment => .ok ({ s with slides := cutTokens s.tokens }, .done)
  | .push slide token => do
    let t ← fetch s.tokens token
    match place? s.slides.length slide with
    | some i => return ({ s with slides := s.slides.modify i (· ++ [t]) }, .done)
    | none => throw .noSuch
  | .newSlide tokens => do
    let ts ← tokens.mapM (fetch s.tokens)
    return ({ s with slides := s.slides ++ [ts] }, .done)
  | .same slide index token => do
    let onSlide ← fetch (← fetch s.slides slide) index
    let t ← fetch s.tokens token
    return (s, .truth (onSlide.id = t.id))
  | .equal => .ok (s, .truth (s.deck = Slide.segment s.nodes))
  | .renderSlide slide => do
    let tokens ← fetch s.slides slide
    return (s, .text (← rendered (Slide.render? (tokens.map Token.node))))
  | .renderDocument => do return (s, .text (← rendered (s.config.render? s.deck)))
  | .walk => .ok (s, .tags ((Node.walk s.nodes).map Node.tag))
  | .assign none => .ok (s, .done)
  | .assign (some a) => .ok ({ s with config := s.config.assign a }, .done)
  | .configure prologue epilogue rawBlocks =>
    match Config.make prologue epilogue rawBlocks with
    | .error f => .error (.config f)
    | .ok config => .ok ({ s with config }, .done)
  | .set token field => do
    let _ ← fetch s.tokens token
    throw (.field (Draft.setField field))
  | .convert t =>
    match Conversion.ofText s.config t with
    | .error f => .error (.conversion f)
    | .ok c =>
      let s := s.replace c.document.blocks
      .ok ({ s with slides := cutTokens s.tokens }, .converted c.slides.length c.output)

/-- The session after a step. It stays as it is when the step fails. -/
def next (s : Session) (st : Step) : Session :=
  match s.step st with
  | .ok (s', _) => s'
  | .error _ => s

theorem next_of_ok {s s' : Session} {st : Step} {r : Reply} (h : s.step st = .ok (s', r)) :
    s.next st = s' := by
  unfold next
  rw [h]

/-- A step that fails leaves the session as it was. -/
theorem next_of_error {s : Session} {st : Step} {f : Fault} (h : s.step st = .error f) :
    s.next st = s := by
  unfold next
  rw [h]

/-- What each step of a run answers, and the session after it. -/
def run (s : Session) : List Step → List (Except Fault Reply × Session)
  | [] => []
  | st :: rest => ((s.step st).map Prod.snd, s.next st) :: run (s.next st) rest

end Session

end Lectern
