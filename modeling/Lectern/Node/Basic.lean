-- The nodes of a document: thirteen kinds, five of which only hold other
-- nodes. A bullet list holds items, and each item is a run of nodes in the
-- plain style.
import Lectern.Text.Basic

namespace Lectern

/-! ## Kinds -/

/-- The kinds of a node that only holds other nodes. -/
inductive Style
  | para
  | plain
  | strong
  | emph
  | quote
deriving DecidableEq

/-- The kinds of a node. -/
inductive Tag
  | styled (style : Style)
  | header
  | codeBlock
  | str
  | space
  | rule
  | bullets
  | rawInline
  | rawBlock
deriving DecidableEq

namespace Tag

/-- All kinds. -/
def all : List Tag :=
  [.styled .para, .codeBlock, .header, .str, .space, .styled .strong, .styled .emph, .rule,
    .styled .quote, .styled .plain, .bullets, .rawInline, .rawBlock]

/-- The name of a kind in a record. -/
def string : Tag → String
  | .styled .para => "Para"
  | .styled .plain => "Plain"
  | .styled .strong => "Strong"
  | .styled .emph => "Emph"
  | .styled .quote => "BlockQuote"
  | .header => "Header"
  | .codeBlock => "CodeBlock"
  | .str => "Str"
  | .space => "Space"
  | .rule => "HorizontalRule"
  | .bullets => "BulletList"
  | .rawInline => "RawInline"
  | .rawBlock => "RawBlock"

/-- The name of a kind, as a text. -/
def name (tag : Tag) : Text := Text.ofString tag.string

/-- The kind with a name. -/
def ofName? (name : Text) : Option Tag := all.find? fun tag => tag.name = name

/-- The name of a kind stands for that kind. -/
theorem ofName?_name (tag : Tag) : ofName? tag.name = some tag := by
  rcases tag with style | _ | _ | _ | _ | _ | _ | _ | _
  · cases style <;> decide
  all_goals decide

/-- A name stands for a kind only if it is the name of it. -/
theorem name_of_ofName? {name : Text} {tag : Tag} (h : ofName? name = some tag) :
    tag.name = name := by
  have := List.find?_some h
  simpa using this

end Tag

/-! ## Nodes -/

/-- The level of a header, which is 1 at the top. -/
abbrev Level := { n : Nat // 0 < n }

/-- The level that a whole number is. -/
def Level.ofInt? (n : Int) : Option Level :=
  if h : 0 < n then some ⟨n.toNat, Int.pos_iff_toNat_pos.mp h⟩ else none

/-- A whole number is a level if it is the number of one. -/
theorem Level.ofInt?_eq_some {n : Int} {level : Level} :
    ofInt? n = some level ↔ n = level.val := by
  have hlevel := level.property
  unfold ofInt?
  by_cases h : 0 < n
  · rw [dif_pos h, Option.some.injEq, Subtype.ext_iff]
    show n.toNat = level.val ↔ n = level.val
    omega
  · rw [dif_neg h]
    simp only [reduceCtorEq, false_iff]
    omega

/-- A node of a document. -/
inductive Node
  | str (text : Text)
  | space
  | rule
  | rawInline (format raw : Text)
  | rawBlock (format : Option Text) (raw : Text)
  | codeBlock (language : Option Text) (code : Text)
  | header (level : Level) (identifier : Text) (contents : List Node)
  | styled (style : Style) (contents : List Node)
  | bullets (items : List (List Node))

namespace Node

/-- The kind of a node. -/
def tag : Node → Tag
  | .str _ => .str
  | .space => .space
  | .rule => .rule
  | .rawInline _ _ => .rawInline
  | .rawBlock _ _ => .rawBlock
  | .codeBlock _ _ => .codeBlock
  | .header _ _ _ => .header
  | .styled style _ => .styled style
  | .bullets _ => .bullets

/-- The nodes right inside a node. An item of a bullet list is one node in
the plain style. -/
def children : Node → List Node
  | .header _ _ contents => contents
  | .styled _ contents => contents
  | .bullets items => items.map (.styled .plain)
  | _ => []

/-! ## Induction -/

/-- What holds of a node when it holds of the nodes inside holds of every
node. Of a bullet list it may also be known of the items as nodes. -/
@[elab_as_elim, induction_eliminator]
theorem treeInduction {P : Node → Prop} (str : ∀ text, P (.str text)) (space : P .space)
    (rule : P .rule) (rawInline : ∀ format raw, P (.rawInline format raw))
    (rawBlock : ∀ format raw, P (.rawBlock format raw))
    (codeBlock : ∀ language code, P (.codeBlock language code))
    (header : ∀ level identifier contents, (∀ n ∈ contents, P n) →
      P (.header level identifier contents))
    (styled : ∀ style contents, (∀ n ∈ contents, P n) → P (.styled style contents))
    (bullets : ∀ items, (∀ contents ∈ items, ∀ n ∈ contents, P n) →
      (∀ contents ∈ items, P (.styled .plain contents)) → P (.bullets items)) :
    (n : Node) → P n
  | .str text => str text
  | .space => space
  | .rule => rule
  | .rawInline format raw => rawInline format raw
  | .rawBlock format raw => rawBlock format raw
  | .codeBlock language code => codeBlock language code
  | .header level identifier contents => header level identifier contents fun n h =>
    have := List.sizeOf_lt_of_mem h
    treeInduction str space rule rawInline rawBlock codeBlock header styled bullets n
  | .styled style contents => styled style contents fun n h =>
    have := List.sizeOf_lt_of_mem h
    treeInduction str space rule rawInline rawBlock codeBlock header styled bullets n
  | .bullets items =>
    have inside : ∀ contents ∈ items, ∀ n ∈ contents, P n := fun _ hc n h =>
      have := List.sizeOf_lt_of_mem hc
      have := List.sizeOf_lt_of_mem h
      treeInduction str space rule rawInline rawBlock codeBlock header styled bullets n
    bullets items inside fun contents h => styled .plain contents (inside contents h)
termination_by n => sizeOf n
decreasing_by
  all_goals simp only [Node.header.sizeOf_spec, Node.styled.sizeOf_spec, Node.bullets.sizeOf_spec]
  all_goals omega

/-- What holds of a node when it holds of the nodes right inside holds of
every node. -/
theorem childInduction {P : Node → Prop} (step : ∀ n : Node, (∀ c ∈ n.children, P c) → P n)
    (n : Node) : P n := by
  induction n with
  | str | space | rule | rawInline | rawBlock | codeBlock => exact step _ nofun
  | header level identifier contents ih => exact step _ ih
  | styled style contents ih => exact step _ ih
  | bullets items _ ih =>
    apply step
    intro c hc
    obtain ⟨contents, hi, rfl⟩ := List.mem_map.mp hc
    exact ih contents hi

/-- What holds of a run when it holds of the children of its first node and of
the nodes behind that node holds of every run. -/
@[elab_as_elim]
theorem runInduction {P : List Node → Prop} (nil : P [])
    (cons : ∀ n ns, P n.children → P ns → P (n :: ns)) (ns : List Node) : P ns := by
  have ofChildren : ∀ ns : List Node, (∀ n ∈ ns, P n.children) → P ns := by
    intro ns h
    induction ns with
    | nil => exact nil
    | cons n ns ih =>
      obtain ⟨hn, hns⟩ := List.forall_mem_cons.mp h
      exact cons n ns hn (ih hns)
  have inside : ∀ n : Node, P n.children := by
    intro n
    induction n using childInduction with
    | step n ih => exact ofChildren n.children ih
  exact ofChildren ns fun n _ => inside n

/-! ## Equality -/

mutual

/-- Whether two nodes are of one kind and agree in every field. -/
def same : Node → Node → Bool
  | .str t, .str u => t = u
  | .space, .space => true
  | .rule, .rule => true
  | .rawInline f r, .rawInline g s => f = g && r = s
  | .rawBlock f r, .rawBlock g s => f = g && r = s
  | .codeBlock l c, .codeBlock m d => l = m && c = d
  | .header l i ns, .header m j ms => l = m && i = j && sameAll ns ms
  | .styled s ns, .styled t ms => s = t && sameAll ns ms
  | .bullets is, .bullets js => sameItems is js
  | _, _ => false

/-- Whether two runs of nodes are the same, node by node. -/
def sameAll : List Node → List Node → Bool
  | [], [] => true
  | n :: ns, m :: ms => n.same m && sameAll ns ms
  | _, _ => false

/-- Whether two lists of items are the same, item by item. -/
def sameItems : List (List Node) → List (List Node) → Bool
  | [], [] => true
  | ns :: is, ms :: js => sameAll ns ms && sameItems is js
  | _, _ => false

end

mutual

theorem same_iff : (a b : Node) → (a.same b = true ↔ a = b)
  | a, b => by
    cases a <;> cases b <;>
      simp [same, sameAll_iff, sameItems_iff, and_assoc]

theorem sameAll_iff : (ns ms : List Node) → (sameAll ns ms = true ↔ ns = ms)
  | [], [] => by simp [sameAll]
  | [], _ :: _ => by simp [sameAll]
  | _ :: _, [] => by simp [sameAll]
  | n :: ns, m :: ms => by simp [sameAll, same_iff n m, sameAll_iff ns ms]

theorem sameItems_iff : (is js : List (List Node)) → (sameItems is js = true ↔ is = js)
  | [], [] => by simp [sameItems]
  | [], _ :: _ => by simp [sameItems]
  | _ :: _, [] => by simp [sameItems]
  | ns :: is, ms :: js => by simp [sameItems, sameAll_iff ns ms, sameItems_iff is js]

end

instance : DecidableEq Node := fun a b => decidable_of_iff _ (same_iff a b)

end Node

end Lectern
