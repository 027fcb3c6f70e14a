-- Rendering keeps the texts of a document. Each text that a node holds stands
-- in the output, once and in reading order, between pieces of markup. Only
-- blanks are lost, and only in quotes, whose members are stripped one by one.
-- A strip may cut into markup and into any number of texts, so it is followed
-- piece by piece, from the front and then from the back.
import Lectern.Proofs.Segmentation
import Lectern.Proofs.Writing

namespace Lectern

namespace Text

/-! ## Blanks -/

/-- The text without its blanks. -/
def solid (t : Text) : Text := t.filter fun c => !c.isBlank

@[simp]
theorem solid_append (a b : Text) : solid (a ++ b) = a.solid ++ b.solid := List.filter_append a b

theorem solid_of_blank {t : Text} (h : ∀ c ∈ t, c.isBlank) : t.solid = [] :=
  List.filter_eq_nil_iff.mpr fun c hc => by simp [h c hc]

theorem solid_strip (t : Text) : t.strip.solid = t.solid :=
  filter_strip (fun c hc => by simp [hc]) t

/-- `u` is `t` with nothing but blanks taken away at its two ends. -/
def Trimmed (t u : Text) : Prop :=
  ∃ before behind : Text, (∀ c ∈ before, c.isBlank) ∧ (∀ c ∈ behind, c.isBlank) ∧
    t = before ++ (u ++ behind)

theorem Trimmed.refl (t : Text) : t.Trimmed t := ⟨[], [], by simp, by simp, by simp⟩

theorem Trimmed.of_append_left {t before u : Text} (h : t.Trimmed (before ++ u))
    (hb : ∀ c ∈ before, c.isBlank) : t.Trimmed u := by
  obtain ⟨first, last, hfirst, hlast, rfl⟩ := h
  exact ⟨first ++ before, last, List.forall_mem_append.mpr ⟨hfirst, hb⟩, hlast, by simp⟩

theorem Trimmed.of_append_right {t u behind : Text} (h : t.Trimmed (u ++ behind))
    (hb : ∀ c ∈ behind, c.isBlank) : t.Trimmed u := by
  obtain ⟨first, last, hfirst, hlast, rfl⟩ := h
  exact ⟨first, behind ++ last, hfirst, List.forall_mem_append.mpr ⟨hb, hlast⟩, by simp⟩

end Text

/-! ## Texts woven into markup -/

/-- A text that a node of a document holds, and whether the node stands in a
quote. -/
structure Leaf where
  text : Text
  quoted : Bool

/-- The text `t` is what may be left of a leaf in the output. -/
structure Leaf.Kept (leaf : Leaf) (t : Text) : Prop where
  trimmed : leaf.text.Trimmed t
  whole : leaf.quoted = false → t = leaf.text

theorem Leaf.kept_self (leaf : Leaf) : leaf.Kept leaf.text := ⟨.refl leaf.text, fun _ => rfl⟩

/-- A text is made of the leaves, one after the other, and of markup around
them. The last text is the markup without its blanks. -/
inductive Woven : Text → List Leaf → Text → Prop
  | nil : Woven [] [] []
  | markup (m : Text) {t frame : Text} {leaves : List Leaf} (h : Woven t leaves frame) :
    Woven (m ++ t) leaves (m.solid ++ frame)
  | leaf {leaf : Leaf} {kept : Text} (hk : leaf.Kept kept) {t frame : Text} {leaves : List Leaf}
    (h : Woven t leaves frame) : Woven (kept ++ t) (leaf :: leaves) frame

namespace Woven

open Text

theorem ofMarkup (m : Text) : Woven m [] m.solid := by
  have h := Woven.markup m .nil
  simpa using h

theorem ofLeaf (leaf : Leaf) : Woven leaf.text [leaf] [] := by
  have h := Woven.leaf leaf.kept_self .nil
  simpa using h

theorem append {a b frame frame' : Text} {leaves leaves' : List Leaf}
    (ha : Woven a leaves frame) (hb : Woven b leaves' frame') :
    Woven (a ++ b) (leaves ++ leaves') (frame ++ frame') := by
  induction ha with
  | nil => exact hb
  | markup m _ ih =>
    rw [List.append_assoc, List.append_assoc]
    exact .markup m ih
  | leaf hk _ ih =>
    rw [List.append_assoc]
    exact .leaf hk ih

/-- Blanks in front of a woven text may go, if all its leaves are quoted. -/
theorem of_append_left {t frame : Text} {leaves : List Leaf} (h : Woven t leaves frame)
    (hq : ∀ leaf ∈ leaves, leaf.quoted) {before u : Text} (hb : ∀ c ∈ before, c.isBlank)
    (ht : t = before ++ u) : Woven u leaves frame := by
  induction h generalizing before with
  | nil =>
    obtain ⟨-, rfl⟩ := List.append_eq_nil_iff.mp ht.symm
    exact .nil
  | markup m h ih =>
    -- The blanks end in the markup, or they take all of it and go on.
    rcases List.append_eq_append_iff.mp ht with ⟨more, rfl, rfl⟩ | ⟨rest, rfl, rfl⟩
    · obtain ⟨hm, hmore⟩ := List.forall_mem_append.mp hb
      rw [solid_of_blank hm]
      exact ih hq hmore rfl
    · rw [solid_append, solid_of_blank hb]
      exact .markup rest h
  | @leaf _ kept hk _ _ _ h ih =>
    obtain ⟨hleaf, hq⟩ := List.forall_mem_cons.mp hq
    rcases List.append_eq_append_iff.mp ht with ⟨more, rfl, rfl⟩ | ⟨rest, rfl, rfl⟩
    · obtain ⟨hkept, hmore⟩ := List.forall_mem_append.mp hb
      have hnone := hk.trimmed
      rw [← List.append_nil kept] at hnone
      exact .leaf ⟨hnone.of_append_left hkept, by simp [hleaf]⟩ (ih hq hmore rfl)
    · exact .leaf ⟨hk.trimmed.of_append_left hb, by simp [hleaf]⟩ h

/-- Blanks behind a woven text may go, if all its leaves are quoted. -/
theorem of_append_right {t frame : Text} {leaves : List Leaf} (h : Woven t leaves frame)
    (hq : ∀ leaf ∈ leaves, leaf.quoted) {u behind : Text} (hb : ∀ c ∈ behind, c.isBlank)
    (ht : t = u ++ behind) : Woven u leaves frame := by
  induction h generalizing u with
  | nil =>
    obtain ⟨rfl, -⟩ := List.append_eq_nil_iff.mp ht.symm
    exact .nil
  | markup m h ih =>
    rcases List.append_eq_append_iff.mp ht with ⟨rest, rfl, rfl⟩ | ⟨cut, rfl, rfl⟩
    · exact .markup m (ih hq rfl)
    · -- The blanks begin in the markup, so all that comes behind it goes.
      obtain ⟨hcut, hmore⟩ := List.forall_mem_append.mp hb
      have hnone := h.of_append_left hq hmore (List.append_nil _).symm
      rw [solid_append, solid_of_blank hcut, List.append_nil]
      simpa using Woven.markup u hnone
  | leaf hk h ih =>
    obtain ⟨hleaf, hq⟩ := List.forall_mem_cons.mp hq
    rcases List.append_eq_append_iff.mp ht with ⟨rest, rfl, rfl⟩ | ⟨cut, rfl, rfl⟩
    · exact .leaf hk (ih hq rfl)
    · obtain ⟨hcut, hmore⟩ := List.forall_mem_append.mp hb
      have hnone := h.of_append_left hq hmore (List.append_nil _).symm
      have hkept : Leaf.Kept _ u := ⟨hk.trimmed.of_append_right hcut, by simp [hleaf]⟩
      simpa using Woven.leaf hkept hnone

/-- A strip takes nothing from a woven text but blanks. -/
theorem strip {t frame : Text} {leaves : List Leaf} (h : Woven t leaves frame)
    (hq : ∀ leaf ∈ leaves, leaf.quoted) : Woven t.strip leaves frame := by
  obtain ⟨before, behind, hbefore, hbehind, ht⟩ := exists_strip t
  exact (h.of_append_left hq hbefore ht).of_append_right hq hbehind rfl

/-- Woven texts with a separator between two of them. -/
theorem joinWith {α : Type} (separator : Text) {f g : α → Text} {leaves : α → List Leaf}
    {xs : List α} (h : ∀ x ∈ xs, Woven (f x) (leaves x) (g x).solid) :
    Woven (Text.joinWith separator (xs.map f)) (xs.flatMap leaves)
      (Text.joinWith separator (xs.map g)).solid := by
  induction xs with
  | nil => exact .nil
  | cons x xs ih =>
    obtain ⟨hx, hxs⟩ := List.forall_mem_cons.mp h
    cases xs with
    | nil => simpa [Text.joinWith] using hx
    | cons y ys =>
      have hrest := (hx.append (ofMarkup separator)).append (ih hxs)
      unfold Text.joinWith at hrest ⊢
      rw [List.map_cons, List.map_cons, List.map_cons, List.map_cons, List.intercalate_cons_cons,
        List.intercalate_cons_cons, solid_append, solid_append, List.flatMap_cons]
      simpa using hrest

end Woven

/-- The output is `m0 t1 m1 … tk mk`, where each `ti` is what is kept of a
leaf and the markup `m0 … mk` is that of the frame but for blanks. -/
def KeepsText (output : Text) (leaves : List Leaf) (frame : Text) : Prop :=
  ∃ (front : Text) (parts : List (Text × Text)),
    output = front ++ parts.flatMap (fun part => part.1 ++ part.2) ∧
    List.Forall₂ (fun (leaf : Leaf) part => leaf.Kept part.1) leaves parts ∧
    (front ++ parts.flatMap Prod.snd).solid = frame.solid

theorem Woven.exists_parts {t frame : Text} {leaves : List Leaf} (h : Woven t leaves frame) :
    ∃ (front : Text) (parts : List (Text × Text)),
      t = front ++ parts.flatMap (fun part => part.1 ++ part.2) ∧
      List.Forall₂ (fun (leaf : Leaf) part => leaf.Kept part.1) leaves parts ∧
      (front ++ parts.flatMap Prod.snd).solid = frame := by
  induction h with
  | nil => exact ⟨[], [], rfl, .nil, rfl⟩
  | markup m _ ih =>
    obtain ⟨front, parts, rfl, hparts, rfl⟩ := ih
    exact ⟨m ++ front, parts, by simp, hparts, by simp⟩
  | @leaf _ kept hk _ _ _ _ ih =>
    obtain ⟨front, parts, rfl, hparts, rfl⟩ := ih
    exact ⟨[], (kept, front) :: parts, by simp, .cons hk hparts, by simp⟩

theorem Woven.keepsText {t frame : Text} {leaves : List Leaf} (h : Woven t leaves frame.solid) :
    KeepsText t leaves frame := h.exists_parts

/-! ## The leaves of a node -/

namespace Node

mutual

/-- The leaves of a node that stands in a quote or does not. -/
def leaves (quoted : Bool) : Node → List Leaf
  | .str t | .rawInline _ t | .rawBlock _ t | .codeBlock _ t => [⟨t, quoted⟩]
  | .header _ _ contents => leavesOfAll quoted contents
  | .styled style contents => leavesOfAll (quoted || style = .quote) contents
  | .bullets items => leavesOfItems quoted items
  | .space | .rule => []

/-- The leaves of a run of nodes. -/
def leavesOfAll (quoted : Bool) : List Node → List Leaf
  | [] => []
  | n :: rest => n.leaves quoted ++ leavesOfAll quoted rest

/-- The leaves of the items of a bullet list. -/
def leavesOfItems (quoted : Bool) : List (List Node) → List Leaf
  | [] => []
  | contents :: rest => leavesOfAll quoted contents ++ leavesOfItems quoted rest

end

theorem leavesOfAll_eq (quoted : Bool) (ns : List Node) :
    leavesOfAll quoted ns = ns.flatMap (leaves quoted) := by
  induction ns with
  | nil => rfl
  | cons n ns ih => simp [leavesOfAll, ih]

theorem leavesOfItems_eq (quoted : Bool) (items : List (List Node)) :
    leavesOfItems quoted items = (items.map (styled .plain)).flatMap (leaves quoted) := by
  induction items with
  | nil => rfl
  | cons contents items ih => simp [leavesOfItems, leaves, ih]

/-- The leaves of a node are its own text and the leaves of its children. -/
theorem leaves_eq (quoted : Bool) (n : Node) :
    n.leaves quoted = (n.ownText?.map (Leaf.mk · quoted)).toList ++
      n.children.flatMap (leaves (quoted || n.tag = .styled .quote)) := by
  cases n <;> simp [leaves, ownText?, children, tag, leavesOfAll_eq, leavesOfItems_eq]

theorem quoted_of_mem_leaves {n : Node} {leaf : Leaf} (h : leaf ∈ n.leaves true) :
    leaf.quoted = true := by
  induction n using childInduction with
  | step n ih =>
    rw [leaves_eq, List.mem_append] at h
    rcases h with h | h
    · obtain ⟨t, -, rfl⟩ := Option.map_eq_some_iff.mp (Option.mem_toList.mp h)
      rfl
    · obtain ⟨c, hc, h⟩ := List.mem_flatMap.mp h
      exact ih c hc h

/-- The leaves hold the texts that the walk over the node meets. -/
theorem text_leaves (quoted : Bool) (n : Node) :
    (n.leaves quoted).map Leaf.text = (walk [n]).filterMap ownText? := by
  induction n using childInduction generalizing quoted with
  | step n ih =>
    have hchildren : (n.children.flatMap (leaves (quoted || n.tag = .styled .quote))).map Leaf.text =
        (walk n.children).filterMap ownText? := by
      rw [flatMap_walk, List.map_flatMap, List.filterMap_flatMap, List.flatMap_def,
        List.flatMap_def, List.map_congr_left fun c hc => ih c hc _]
    rw [leaves_eq, List.map_append, hchildren, walk_singleton]
    cases hown : n.ownText? with
    | none =>
      rw [List.filterMap_cons_none hown]
      rfl
    | some t =>
      rw [List.filterMap_cons_some hown]
      rfl

/-- A rule has no leaves. -/
theorem flatMap_leaves_filter (quoted : Bool) (ns : List Node) :
    (ns.filter (·.tag ≠ .rule)).flatMap (leaves quoted) = ns.flatMap (leaves quoted) := by
  induction ns with
  | nil => rfl
  | cons n ns ih =>
    by_cases hn : n.tag = .rule
    · rw [List.filter_cons_of_neg (by simp [hn]), ih, n.tag_eq_rule.mp hn]
      rfl
    · rw [List.filter_cons_of_pos (by simp [hn]), List.flatMap_cons, List.flatMap_cons, ih]

/-! ## Nodes without their texts -/

mutual

/-- The node with every text in it empty. -/
def emptied : Node → Node
  | .str _ => .str []
  | .rawInline format _ => .rawInline format []
  | .rawBlock format _ => .rawBlock format []
  | .codeBlock language _ => .codeBlock language []
  | .header level identifier contents => .header level identifier (emptiedAll contents)
  | .styled style contents => .styled style (emptiedAll contents)
  | .bullets items => .bullets (emptiedItems items)
  | .space => .space
  | .rule => .rule

/-- A run of nodes with every text in them empty. -/
def emptiedAll : List Node → List Node
  | [] => []
  | n :: rest => n.emptied :: emptiedAll rest

/-- The items of a bullet list with every text in them empty. -/
def emptiedItems : List (List Node) → List (List Node)
  | [] => []
  | contents :: rest => emptiedAll contents :: emptiedItems rest

end

theorem emptiedAll_eq (ns : List Node) : emptiedAll ns = ns.map emptied := by
  induction ns with
  | nil => rfl
  | cons n ns ih => simp [emptiedAll, ih]

theorem emptiedItems_eq (items : List (List Node)) :
    emptiedItems items = items.map (List.map emptied) := by
  induction items with
  | nil => rfl
  | cons contents items ih => simp [emptiedItems, emptiedAll_eq, ih]

section Emptied

variable (n : Node)

@[simp]
theorem tag_emptied : n.emptied.tag = n.tag := by
  cases n <;> rfl

@[simp]
theorem boundary_emptied : n.emptied.boundary = n.boundary := by
  cases n <;> rfl

@[simp]
theorem opening_emptied : n.emptied.opening = n.opening := by
  cases n <;> rfl

@[simp]
theorem closing_emptied : n.emptied.closing = n.closing := by
  cases n <;> rfl

@[simp]
theorem separator_emptied : n.emptied.separator = n.separator := by
  cases n <;> rfl

@[simp]
theorem ownText?_emptied : n.emptied.ownText?.getD [] = [] := by
  cases n <;> rfl

@[simp]
theorem children_emptied : n.emptied.children = n.children.map emptied := by
  cases n <;> simp [emptied, children, emptiedAll_eq, emptiedItems_eq]

/-- Without its texts a node has the markup that is left of it: its opening,
its children without their texts, and its closing. -/
theorem markup_emptied :
    n.emptied.markup = n.opening ++
      Text.joinWith n.separator (n.children.map fun c => n.childMarkup c.emptied) ++ n.closing := by
  have hchild : n.emptied.childMarkup = n.childMarkup := by
    funext c
    simp [childMarkup]
  simp [markup_eq n.emptied, childrenMarkup, hchild, Function.comp_def]

end Emptied

/-! ## The markup of a node -/

/-- The text of a node, if it has one, is a leaf of it. -/
theorem woven_ownText? (n : Node) (quoted : Bool) :
    Woven (n.ownText?.getD []) (n.ownText?.map (Leaf.mk · quoted)).toList [] := by
  cases n.ownText? with
  | none => exact .nil
  | some t => exact .ofLeaf ⟨t, quoted⟩

/-- A child of a quote is stripped, and its leaves are quoted. -/
theorem woven_childMarkup {n c : Node} {quoted : Bool}
    (h : ∀ quoted, Woven c.markup (c.leaves quoted) c.emptied.markup.solid) :
    Woven (n.childMarkup c) (c.leaves (quoted || n.tag = .styled .quote))
      (n.childMarkup c.emptied).solid := by
  by_cases hq : n.tag = .styled .quote
  · rw [childMarkup, childMarkup, if_pos hq, if_pos hq, Text.solid_strip, decide_eq_true hq,
      Bool.or_true]
    exact (h true).strip fun leaf hl => quoted_of_mem_leaves hl
  · rw [childMarkup, childMarkup, if_neg hq, if_neg hq, decide_eq_false hq, Bool.or_false]
    exact h quoted

theorem woven_markup (n : Node) (quoted : Bool) :
    Woven n.markup (n.leaves quoted) n.emptied.markup.solid := by
  induction n using childInduction generalizing quoted with
  | step n ih =>
    have hchildren : Woven n.childrenMarkup
        (n.children.flatMap (leaves (quoted || n.tag = .styled .quote)))
        (Text.joinWith n.separator (n.children.map fun c => n.childMarkup c.emptied)).solid :=
      .joinWith n.separator fun c hc => woven_childMarkup (ih c hc)
    have hinside := (n.woven_ownText? quoted).append hchildren
    have hwoven := ((Woven.ofMarkup n.opening).append hinside).append (.ofMarkup n.closing)
    rw [markup_eq, leaves_eq, markup_emptied, Text.solid_append, Text.solid_append]
    simpa using hwoven

end Node

/-! ## The text of a deck -/

namespace Slide

/-- A document without its texts is cut in the same places. -/
theorem segment_emptied (nodes : List Node) :
    segment (nodes.map Node.emptied) = (segment nodes).map (List.map Node.emptied) := by
  have hboundary : Node.boundary ∘ Node.emptied = Node.boundary := funext Node.boundary_emptied
  unfold segment
  rw [segmentBy_map, hboundary]

/-- The slides of a document have the leaves of the document. -/
theorem leaves_segment (nodes : List Node) :
    (segment nodes).flatMap (List.flatMap (Node.leaves false)) =
      nodes.flatMap (Node.leaves false) := by
  have hslides : (segment nodes).flatMap (List.flatMap (Node.leaves false)) =
      (segment nodes).flatten.flatMap (Node.leaves false) := by
    rw [List.flatten_eq_flatMap, List.flatMap_assoc]
    rfl
  rw [hslides, flatten_segment, Node.flatMap_leaves_filter]

theorem woven_frame (s : Slide) :
    Woven (s.frame ++ Markup.newline) (s.flatMap (Node.leaves false))
      (frame (s.map Node.emptied) ++ Markup.newline).solid := by
  have hbody : Woven s.body (s.flatMap (Node.leaves false)) (body (s.map Node.emptied)).solid := by
    rw [body_eq, body_eq, List.map_map]
    exact .joinWith _ fun n _ => n.woven_markup false
  have hopened := (Woven.ofMarkup (Template.slideStart ++ Markup.newline)).append hbody
  have hwoven := hopened.append
    (.ofMarkup (Markup.newline ++ Template.slideStop ++ Markup.newline))
  rw [frame_lines, frame_lines]
  simpa using hwoven

end Slide

theorem Config.woven_deck (config : Config) (slides : List Slide) :
    Woven (config.deck slides) (slides.flatMap (List.flatMap (Node.leaves false)))
      (config.deck (slides.map (List.map Node.emptied))).solid := by
  have hframe : ∀ s ∈ slides, Woven (s.frame ++ Markup.newline) (s.flatMap (Node.leaves false))
      (Slide.frame (s.map Node.emptied) ++ Markup.newline).solid := fun s _ => s.woven_frame
  have hframes := Woven.joinWith [] hframe
  rw [Text.joinWith_nil, Text.joinWith_nil, ← List.flatMap_def, ← List.flatMap_def] at hframes
  have hwoven := ((Woven.ofMarkup config.prologue).append hframes).append
    (.ofMarkup config.epilogue)
  rw [deck, deck, List.flatMap_map, Text.solid_append, Text.solid_append]
  simpa using hwoven

/-! ## The law -/

namespace Slide

/-- The output holds the text of each node that the walk meets, once and in
order. A text in a quote may lose blanks at its ends, and no other text loses
anything. The rest of the output is what is written without the texts, but
for blanks. This holds of a node, and of a document that is cut into slides
and written as a deck. -/
theorem rendering_keeps_every_text_in_order :
    (∀ n : Node, (n.leaves false).map Leaf.text = (Node.walk [n]).filterMap Node.ownText? ∧
      KeepsText n.markup (n.leaves false) n.emptied.markup) ∧
    ∀ (config : Config) (nodes : List Node),
      (nodes.flatMap (Node.leaves false)).map Leaf.text =
        (Node.walk nodes).filterMap Node.ownText? ∧
      KeepsText (config.deck (segment nodes)) (nodes.flatMap (Node.leaves false))
        (config.deck (segment (nodes.map Node.emptied))) := by
  constructor
  · intro n
    exact ⟨n.text_leaves false, (n.woven_markup false).keepsText⟩
  · intro config nodes
    constructor
    · rw [Node.flatMap_walk, List.map_flatMap, List.filterMap_flatMap]
      simp only [Node.text_leaves]
    · have hwoven := config.woven_deck (segment nodes)
      rw [leaves_segment] at hwoven
      rw [segment_emptied]
      exact hwoven.keepsText

end Slide

end Lectern
