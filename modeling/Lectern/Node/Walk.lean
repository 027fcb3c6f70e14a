-- The walk over a tree of nodes and its outline. The walk meets each node
-- right before the nodes inside it. The outline keeps the kinds and forgets
-- what the nodes hold.
import Lectern.Node.Basic

namespace Lectern

/-! ## The walk -/

namespace Node

mutual

/-- The nodes at any depth inside a node, in reading order. -/
def descendants : Node → List Node
  | .header _ _ contents => walk contents
  | .styled _ contents => walk contents
  | .bullets items => walkItems items
  | _ => []

/-- A run of nodes, each with its descendants right behind it. -/
def walk : List Node → List Node
  | [] => []
  | n :: rest => n :: (n.descendants ++ walk rest)

/-- The items of a bullet list as nodes, each with its descendants. -/
def walkItems : List (List Node) → List Node
  | [] => []
  | contents :: rest => .styled .plain contents :: (walk contents ++ walkItems rest)

end

theorem walkItems_eq (items : List (List Node)) :
    walkItems items = walk (items.map (.styled .plain)) := by
  induction items with
  | nil => simp [walkItems, walk]
  | cons contents items ih => simp [walkItems, walk, descendants, ih]

/-- The descendants of a node are its children and their descendants. -/
theorem descendants_eq (n : Node) : n.descendants = walk n.children := by
  cases n <;> simp [descendants, children, walkItems_eq, walk]

theorem walk_cons (n : Node) (ns : List Node) :
    walk (n :: ns) = n :: (walk n.children ++ walk ns) := by
  rw [walk, descendants_eq]

theorem walk_singleton (n : Node) : walk [n] = n :: walk n.children := by
  rw [walk_cons, walk, List.append_nil]

theorem flatMap_walk (ns : List Node) : walk ns = ns.flatMap fun n => walk [n] := by
  induction ns with
  | nil => rfl
  | cons n ns ih => simp [walk, ih]

/-- A walk meets what the walks from its first nodes meet. -/
theorem mem_walk {m : Node} {ns : List Node} : m ∈ walk ns ↔ ∃ n ∈ ns, m ∈ walk [n] := by
  rw [flatMap_walk ns, List.mem_flatMap]

/-- The walk from a node meets the node, and what the walks from its
children meet. -/
theorem mem_walk_singleton {m n : Node} :
    m ∈ walk [n] ↔ m = n ∨ ∃ c ∈ n.children, m ∈ walk [c] := by
  rw [walk_singleton, List.mem_cons, mem_walk]

/-- What holds all along the walk from a node holds of the node and along
the walks from its children. -/
theorem forall_walk_singleton {p : Node → Prop} {n : Node} :
    (∀ m ∈ walk [n], p m) ↔ p n ∧ ∀ c ∈ n.children, ∀ m ∈ walk [c], p m := by
  constructor
  · intro h
    refine ⟨h n (mem_walk_singleton.mpr (.inl rfl)), fun c hc m hm => h m ?_⟩
    exact mem_walk_singleton.mpr (.inr ⟨c, hc, hm⟩)
  · rintro ⟨hn, hc⟩ m hm
    rcases mem_walk_singleton.mp hm with rfl | ⟨c, hm, hw⟩
    · exact hn
    · exact hc c hm m hw

end Node

/-! ## The outline -/

/-- A tree of kinds. -/
inductive Outline
  | node (tag : Tag) (children : List Outline)

namespace Node

mutual

/-- The outline of a node. -/
def outline : Node → Outline
  | .header _ _ contents => .node .header (outlines contents)
  | .styled style contents => .node (.styled style) (outlines contents)
  | .bullets items => .node .bullets (itemOutlines items)
  | .str _ => .node .str []
  | .space => .node .space []
  | .rule => .node .rule []
  | .rawInline _ _ => .node .rawInline []
  | .rawBlock _ _ => .node .rawBlock []
  | .codeBlock _ _ => .node .codeBlock []

/-- The outlines of a run of nodes. -/
def outlines : List Node → List Outline
  | [] => []
  | n :: rest => n.outline :: outlines rest

/-- The outlines of the items of a bullet list. -/
def itemOutlines : List (List Node) → List Outline
  | [] => []
  | contents :: rest => .node (.styled .plain) (outlines contents) :: itemOutlines rest

end

theorem outlines_eq (ns : List Node) : outlines ns = ns.map outline := by
  induction ns with
  | nil => rfl
  | cons n ns ih => simp [outlines, ih]

theorem itemOutlines_eq (items : List (List Node)) :
    itemOutlines items = (items.map (.styled .plain)).map outline := by
  induction items with
  | nil => rfl
  | cons contents items ih => simp [itemOutlines, outline, ih]

/-- The outline of a node is its kind over the outlines of its children. -/
theorem outline_eq (n : Node) : n.outline = .node n.tag (n.children.map outline) := by
  cases n <;> simp [outline, tag, children, outlines_eq, itemOutlines_eq]

end Node

namespace Outline

mutual

/-- Whether two outlines agree. -/
def same : Outline → Outline → Bool
  | .node s os, .node t ps => s = t && sameAll os ps

/-- Whether two lists of outlines agree, one by one. -/
def sameAll : List Outline → List Outline → Bool
  | [], [] => true
  | o :: os, p :: ps => o.same p && sameAll os ps
  | _, _ => false

end

mutual

theorem same_iff : (a b : Outline) → (a.same b = true ↔ a = b)
  | .node s os, .node t ps => by simp [same, sameAll_iff os ps]

theorem sameAll_iff : (os ps : List Outline) → (sameAll os ps = true ↔ os = ps)
  | [], [] => by simp [sameAll]
  | [], _ :: _ => by simp [sameAll]
  | _ :: _, [] => by simp [sameAll]
  | o :: os, p :: ps => by simp [sameAll, same_iff o p, sameAll_iff os ps]

end

instance : DecidableEq Outline := fun a b => decidable_of_iff _ (same_iff a b)

end Outline

end Lectern
