-- The calls that a pass over nodes has open. A pass calls itself for the
-- nodes inside a node, and only so many calls can be open at once. What a
-- pass needs depends on the kinds that stand around a node, so trees that
-- one pass gets through may be too deep for another.
import Lectern.Node.Walk

namespace Lectern

/-- How many calls of a pass may be open when it comes to a node. A thousand
can be open in all. About fifteen of them are those of the program before
the pass and those that the node itself takes, and a caller that stands
deeper has fewer left, so the limit is exact to within a few calls. -/
def callLimit : Nat := 985

/-- The calls that rendering keeps open at a node while it renders the nodes
inside: that of the node, that of the rule of its kind, and those that join
the markup. -/
def Tag.renderCalls : Tag → Nat
  | .styled .quote | .bullets => 4
  | .styled _ | .header => 5
  | _ => 0

theorem Tag.renderCalls_le (tag : Tag) : tag.renderCalls ≤ 5 := by
  unfold renderCalls
  split <;> decide

/-- The calls that writing keeps open at a node while it writes the nodes
inside. -/
def Tag.writeCalls : Tag → Nat
  | .styled _ | .header => 3
  | .bullets => 2
  | _ => 0

theorem Tag.writeCalls_le (tag : Tag) : tag.writeCalls ≤ 3 := by
  unfold writeCalls
  split <;> decide

namespace Node

mutual

/-- The nodes at any depth inside a node, each with the calls that are open
when the pass comes to it. When it comes to the node, `before` are open. -/
def callsInside (cost : Tag → Nat) (before : Nat) : Node → List (Node × Nat)
  | .header _ _ contents => callsAlong cost (before + cost .header) contents
  | .styled style contents => callsAlong cost (before + cost (.styled style)) contents
  | .bullets items => callsAlongItems cost (before + cost .bullets) items
  | _ => []

/-- The nodes that a walk meets, each with the calls that are open when the
pass comes to it. -/
def callsAlong (cost : Tag → Nat) (before : Nat) : List Node → List (Node × Nat)
  | [] => []
  | n :: rest => (n, before) :: (callsInside cost before n ++ callsAlong cost before rest)

/-- The same for the items of a bullet list, each a node in the plain style. -/
def callsAlongItems (cost : Tag → Nat) (before : Nat) : List (List Node) → List (Node × Nat)
  | [] => []
  | contents :: rest =>
    (.styled .plain contents, before) ::
      (callsAlong cost (before + cost (.styled .plain)) contents
        ++ callsAlongItems cost before rest)

end

/-- A pass over nodes gets through: it comes to no node with too many calls
open. -/
def Fits (cost : Tag → Nat) (before : Nat) (ns : List Node) : Prop :=
  ∀ p ∈ callsAlong cost before ns, p.2 ≤ callLimit

instance (cost : Tag → Nat) (before : Nat) (ns : List Node) : Decidable (Fits cost before ns) :=
  inferInstanceAs (Decidable (∀ p ∈ callsAlong cost before ns, p.2 ≤ callLimit))

/-- The nodes that a pass comes to. It breaks off at the first node with too
many calls open. -/
def reached (cost : Tag → Nat) (ns : List Node) : List Node :=
  ((callsAlong cost 0 ns).takeWhile fun p => p.2 ≤ callLimit).map Prod.fst

section

variable {cost : Tag → Nat} {before : Nat}

theorem callsAlongItems_eq (items : List (List Node)) :
    callsAlongItems cost before items = callsAlong cost before (items.map (.styled .plain)) := by
  induction items with
  | nil => rfl
  | cons contents items ih => simp [callsAlongItems, callsAlong, callsInside, ih]

theorem callsInside_eq (n : Node) :
    callsInside cost before n = callsAlong cost (before + cost n.tag) n.children := by
  cases n <;> simp [callsInside, children, tag, callsAlongItems_eq, callsAlong]

theorem callsAlong_cons (n : Node) (ns : List Node) :
    callsAlong cost before (n :: ns) =
      (n, before) :: (callsAlong cost (before + cost n.tag) n.children
        ++ callsAlong cost before ns) := by
  rw [callsAlong, callsInside_eq]

/-- A pass comes to the nodes in the order of the walk. -/
theorem map_fst_callsAlong (ns : List Node) :
    (callsAlong cost before ns).map Prod.fst = walk ns := by
  induction ns using runInduction generalizing before with
  | nil => rfl
  | cons n ns inside rest =>
    rw [callsAlong_cons, walk_cons, List.map_cons, List.map_append, inside, rest]

/-- What a pass comes to before it breaks off is met first on the walk. -/
theorem reached_prefix (ns : List Node) : reached cost ns <+: walk ns := by
  have h := (List.takeWhile_prefix (l := callsAlong cost 0 ns)
    fun p => decide (p.2 ≤ callLimit)).map Prod.fst
  rwa [map_fst_callsAlong] at h

/-- A pass that gets through comes to every node. -/
theorem Fits.reached_eq {ns : List Node} (h : Fits cost 0 ns) : reached cost ns = walk ns := by
  have hall : (callsAlong cost 0 ns ++ []).takeWhile (fun p => decide (p.2 ≤ callLimit)) =
      callsAlong cost 0 ns ++ [].takeWhile fun p => decide (p.2 ≤ callLimit) :=
    List.takeWhile_append_of_pos fun p hp => decide_eq_true (h p hp)
  rw [List.append_nil, List.takeWhile_nil, List.append_nil] at hall
  rw [reached, hall, map_fst_callsAlong]

theorem fits_nil : Fits cost before [] := nofun

/-- A pass gets through nodes if it can come to the first one, and gets through
the nodes inside that one and through the others. -/
theorem fits_cons {n : Node} {ns : List Node} :
    Fits cost before (n :: ns) ↔
      before ≤ callLimit ∧ Fits cost (before + cost n.tag) n.children ∧ Fits cost before ns := by
  simp only [Fits, callsAlong_cons, List.forall_mem_cons, List.forall_mem_append]

theorem fits_iff {ns : List Node} : Fits cost before ns ↔ ∀ n ∈ ns, Fits cost before [n] := by
  induction ns with
  | nil => simp [fits_nil]
  | cons n ns ih =>
    rw [List.forall_mem_cons, ← ih, fits_cons, fits_cons]
    simp only [fits_nil, and_true, and_assoc]

theorem fits_append {ms ns : List Node} :
    Fits cost before (ms ++ ns) ↔ Fits cost before ms ∧ Fits cost before ns := by
  rw [fits_iff, List.forall_mem_append, ← fits_iff, ← fits_iff]

end

end Node

end Lectern
