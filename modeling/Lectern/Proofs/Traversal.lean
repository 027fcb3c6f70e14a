-- The walk, the children and the outline describe one tree. The walk meets
-- every node at every depth once, and right behind a node those inside it.
-- The kinds that it meets are those of the outline, in the same order. The
-- outline and what the nodes hold themselves tell the whole node.
import Mathlib.Algebra.Ring.Nat
import Lectern.Node.Walk

namespace Lectern

/-! ## The outline in order -/

namespace Outline

mutual

/-- The kinds in a tree, each right before those below it. -/
def preorder : Outline → List Tag
  | .node tag children => tag :: preorders children

/-- The kinds in a run of trees. -/
def preorders : List Outline → List Tag
  | [] => []
  | o :: rest => o.preorder ++ preorders rest

end

mutual

/-- How many kinds stand in a tree. -/
def size : Outline → Nat
  | .node _ children => sizes children + 1

/-- How many kinds stand in a run of trees. -/
def sizes : List Outline → Nat
  | [] => 0
  | o :: rest => o.size + sizes rest

end

theorem preorders_eq (os : List Outline) : preorders os = os.flatMap preorder := by
  induction os with
  | nil => rfl
  | cons o os ih => rw [preorders, ih, List.flatMap_cons]

theorem sizes_eq (os : List Outline) : sizes os = (os.map size).sum := by
  induction os with
  | nil => rfl
  | cons o os ih => rw [sizes, ih, List.map_cons, List.sum_cons]

end Outline

namespace Node

theorem map_tag_walk (ns : List Node) :
    (walk ns).map tag = Outline.preorders (ns.map outline) := by
  induction ns using runInduction with
  | nil => rfl
  | cons n ns ihc ih =>
    rw [walk_cons, List.map_cons, List.map_append, ihc, ih, List.map_cons, outline_eq n]
    rfl

theorem length_walk (ns : List Node) : (walk ns).length = Outline.sizes (ns.map outline) := by
  induction ns using runInduction with
  | nil => rfl
  | cons n ns ihc ih =>
    rw [walk_cons, List.length_cons, List.length_append, ihc, ih, List.map_cons, outline_eq n,
      Outline.sizes, Outline.size]
    omega

end Node

/-! ## Addresses -/

/-- Where a node stands: its number among the nodes of a run, or the number of
the node that it is in, then that of a child of this node, and so on down. -/
abbrev Address := List Nat

/-- The address goes on from the other one. -/
def Address.Below (a b : Address) : Prop := b <+: a ∧ b ≠ a

namespace Node

/-- The node at an address inside a node. The empty address is that of the
node. -/
def at? : Node → Address → Option Node
  | n, [] => some n
  | n, i :: rest => n.children[i]?.bind fun c => c.at? rest

/-- The node at an address in a run. -/
def nodeAt? (ns : List Node) : Address → Option Node
  | [] => none
  | i :: rest => ns[i]?.bind fun n => n.at? rest

end Node

namespace Outline

mutual

/-- The addresses in a tree. -/
def addresses : Outline → List Address
  | .node _ children => [] :: addressesFrom 0 children

/-- The addresses in a run of trees that are counted from a number on. -/
def addressesFrom (first : Nat) : List Outline → List Address
  | [] => []
  | o :: rest => o.addresses.map (first :: ·) ++ addressesFrom (first + 1) rest

end

/-- An address in a run begins with the number of a tree and goes on in it. -/
theorem mem_addressesFrom {first : Nat} {os : List Outline} {a : Address} :
    a ∈ addressesFrom first os ↔
      ∃ i o rest, os[i]? = some o ∧ a = (first + i) :: rest ∧ rest ∈ o.addresses := by
  induction os generalizing first with
  | nil => simp [addressesFrom]
  | cons o os ih =>
    rw [addressesFrom, List.mem_append, List.mem_map, ih]
    constructor
    · rintro (⟨rest, hrest, rfl⟩ | ⟨i, o', rest, hi, rfl, hrest⟩)
      · exact ⟨0, o, rest, rfl, rfl, hrest⟩
      · exact ⟨i + 1, o', rest, hi, by rw [Nat.add_right_comm, Nat.add_assoc], hrest⟩
    · rintro ⟨i, o', rest, hi, rfl, hrest⟩
      cases i with
      | zero =>
        cases hi
        exact .inl ⟨rest, hrest, rfl⟩
      | succ i => exact .inr ⟨i, o', rest, hi, by rw [Nat.add_right_comm, Nat.add_assoc], hrest⟩

theorem mem_addressesFrom_zero {os : List Outline} {i : Nat} {rest : Address} :
    i :: rest ∈ addressesFrom 0 os ↔ ∃ o, os[i]? = some o ∧ rest ∈ o.addresses := by
  rw [mem_addressesFrom]
  constructor
  · rintro ⟨j, o, rest', hj, h, hrest⟩
    obtain ⟨rfl, rfl⟩ := List.cons.inj h
    exact ⟨o, by simpa using hj, hrest⟩
  · rintro ⟨o, hi, hrest⟩
    exact ⟨i, o, rest, hi, by rw [Nat.zero_add], hrest⟩

mutual

/-- The addresses in a tree ascend, as words in a dictionary do. -/
theorem ascending_addresses : (o : Outline) → o.addresses.Pairwise (· < ·)
  | .node _ children => by
    rw [addresses, List.pairwise_cons]
    refine ⟨fun a ha => ?_, ascending_addressesFrom 0 children⟩
    obtain ⟨i, o, rest, -, rfl, -⟩ := mem_addressesFrom.mp ha
    exact List.nil_lt_cons _ _

theorem ascending_addressesFrom (first : Nat) :
    (os : List Outline) → (addressesFrom first os).Pairwise (· < ·)
  | [] => .nil
  | o :: os => by
    rw [addressesFrom, List.pairwise_append, List.pairwise_map]
    refine ⟨?_, ascending_addressesFrom (first + 1) os, ?_⟩
    · exact (ascending_addresses o).imp fun h => List.cons_lt_cons_iff.mpr (.inr ⟨rfl, h⟩)
    · intro a ha b hb
      obtain ⟨rest, -, rfl⟩ := List.mem_map.mp ha
      obtain ⟨i, -, rest', -, rfl, -⟩ := mem_addressesFrom.mp hb
      exact List.cons_lt_cons_iff.mpr (.inl (by omega))

end

end Outline

/-! ## Addresses that ascend -/

namespace Address

/-- Between an address and one below it there are only addresses below it. -/
theorem Below.of_between {a b c : Address} (h : c.Below a) (hab : a < b) (hbc : b < c) :
    b.Below a := by
  refine ⟨?_, fun heq => List.lt_irrefl b (heq ▸ hab)⟩
  obtain ⟨rest, rfl⟩ := h.1
  clear h
  induction a generalizing b with
  | nil => exact List.nil_prefix
  | cons i a ih =>
    cases b with
    | nil => exact absurd hab (List.not_lt_nil _)
    | cons j b =>
      rw [List.cons_append] at hbc
      rcases List.cons_lt_cons_iff.mp hab with hij | ⟨rfl, hlater⟩
      · rcases List.cons_lt_cons_iff.mp hbc with hji | ⟨rfl, -⟩ <;> omega
      · rcases List.cons_lt_cons_iff.mp hbc with hii | ⟨-, hearlier⟩
        · omega
        · exact (List.prefix_cons_inj i).mpr (ih hlater hearlier)

/-- Of ascending addresses behind `a`, those below `a` come first. -/
theorem exists_below {a : Address} {behind : List Address} (ha : ∀ b ∈ behind, a < b)
    (h : behind.Pairwise (· < ·)) :
    ∃ below others, behind = below ++ others ∧ (∀ b ∈ below, b.Below a) ∧
      ∀ b ∈ others, ¬ b.Below a := by
  induction behind with
  | nil => exact ⟨[], [], rfl, nofun, nofun⟩
  | cons b behind ih =>
    obtain ⟨hab, ha⟩ := List.forall_mem_cons.mp ha
    obtain ⟨hb, h⟩ := List.pairwise_cons.mp h
    by_cases hbelow : b.Below a
    · obtain ⟨below, others, rfl, hin, hout⟩ := ih ha h
      exact ⟨b :: below, others, rfl, List.forall_mem_cons.mpr ⟨hbelow, hin⟩, hout⟩
    · refine ⟨[], b :: behind, rfl, nofun, List.forall_mem_cons.mpr ⟨hbelow, ?_⟩⟩
      exact fun c hc hca => hbelow (hca.of_between hab (hb c hc))

end Address

/-! ## The way of the walk -/

namespace Node

/-- The walk over a run meets the nodes at these addresses, in this order. -/
structure Tour (ns : List Node) (addresses : List Address) : Prop where
  nodes : addresses.map (nodeAt? ns) = (walk ns).map some
  every : ∀ a, a ∈ addresses ↔ ∃ n, nodeAt? ns a = some n
  once : addresses.Nodup
  leftToRight : addresses.Pairwise (· < ·)
  /-- The addresses below an address come right behind it. -/
  rightBefore : ∀ before a behind, addresses = before ++ a :: behind →
    ∃ below others, behind = below ++ others ∧ (∀ b ∈ below, b.Below a) ∧
      ∀ b ∈ before ++ others, ¬ b.Below a

/-- The addresses in a run, as the outlines of its nodes tell them. -/
def addressesIn (ns : List Node) : List Address := Outline.addressesFrom 0 (ns.map outline)

theorem mem_addresses_outline {n : Node} {a : Address} :
    a ∈ n.outline.addresses ↔ ∃ m, n.at? a = some m := by
  induction a generalizing n with
  | nil =>
    rw [outline_eq, Outline.addresses]
    exact ⟨fun _ => ⟨n, rfl⟩, fun _ => List.mem_cons_self⟩
  | cons i rest ih =>
    rw [outline_eq, Outline.addresses, List.mem_cons, Outline.mem_addressesFrom_zero,
      List.getElem?_map]
    cases hc : n.children[i]? with
    | none => simp [at?, hc]
    | some c => simp [at?, hc, ih]

theorem mem_addressesIn {ns : List Node} {a : Address} :
    a ∈ addressesIn ns ↔ ∃ n, nodeAt? ns a = some n := by
  unfold addressesIn
  cases a with
  | nil => simp [nodeAt?, Outline.mem_addressesFrom]
  | cons i rest =>
    rw [Outline.mem_addressesFrom_zero, List.getElem?_map]
    cases hn : ns[i]? with
    | none => simp [nodeAt?, hn]
    | some n => simp [nodeAt?, hn, mem_addresses_outline]

/-- The nodes at the addresses of a run are those that the walk meets, if `f`
finds a node by its number and then inside it. The run may be the last part of
a longer one. -/
theorem map_addressesFrom (before ns : List Node) (f : Address → Option Node)
    (hf : ∀ i rest, f (i :: rest) = (before ++ ns)[i]?.bind fun n => n.at? rest) :
    (Outline.addressesFrom before.length (ns.map outline)).map f = (walk ns).map some := by
  induction ns using runInduction generalizing before f with
  | nil => rfl
  | cons n ns ihc ih =>
    have hfirst : f ∘ (before.length :: ·) = n.at? := by
      funext rest
      simp [hf]
    have hinside : n.outline.addresses.map n.at? = some n :: (walk n.children).map some := by
      rw [outline_eq, Outline.addresses, List.map_cons, ← ihc [] n.at? fun _ _ => rfl]
      rfl
    have hrest := ih (before ++ [n]) f (by simpa using hf)
    rw [List.length_append] at hrest
    rw [List.map_cons, Outline.addressesFrom, List.map_append, List.map_map, hfirst, hinside,
      walk_cons, List.map_cons, List.map_append, List.cons_append]
    exact congrArg _ (congrArg _ hrest)

theorem ascending_addressesIn (ns : List Node) : (addressesIn ns).Pairwise (· < ·) :=
  Outline.ascending_addressesFrom 0 (ns.map outline)

/-- The addresses in a run are those of the walk over it. -/
theorem tour_addressesIn (ns : List Node) : Tour ns (addressesIn ns) where
  nodes := map_addressesFrom [] ns (nodeAt? ns) fun _ _ => rfl
  every _ := mem_addressesIn
  once := by
    refine List.nodup_iff_pairwise_ne.mpr ((ascending_addressesIn ns).imp ?_)
    rintro a _ h rfl
    exact List.lt_irrefl a h
  leftToRight := ascending_addressesIn ns
  rightBefore := by
    intro before a behind h
    have hascending := ascending_addressesIn ns
    rw [h, List.pairwise_append, List.pairwise_cons] at hascending
    obtain ⟨-, ⟨hbehind, hpairwise⟩, hbefore⟩ := hascending
    obtain ⟨below, others, rfl, hin, hout⟩ := Address.exists_below hbehind hpairwise
    refine ⟨below, others, rfl, hin, List.forall_mem_append.mpr ⟨fun b hb hba => ?_, hout⟩⟩
    -- Before `a` come smaller addresses, and none of these goes on from `a`.
    exact hba.1.le (hbefore b hb a List.mem_cons_self)

example : addressesIn [.rule, .styled .para [.str [], .bullets [[.space]]]] =
    [[0], [1], [1, 0], [1, 1], [1, 1, 0], [1, 1, 0, 0]] := by
  decide

end Node

/-! ## What a node holds itself -/

/-- What a field of a node holds. -/
inductive FieldValue
  | text (t : Text)
  | level (level : Level)
  | absent
deriving DecidableEq

/-- The value of a field whose text may be missing. -/
def FieldValue.ofOption : Option Text → FieldValue
  | some t => .text t
  | none => .absent

theorem FieldValue.ofOption_inj {t u : Option Text} : ofOption t = ofOption u ↔ t = u := by
  cases t <;> cases u <;> simp [ofOption]

/-- How many fields a node of a kind has beside its kind and its children. -/
def Tag.fieldCount : Tag → Nat
  | .str => 1
  | .header | .codeBlock | .rawInline | .rawBlock => 2
  | .styled _ | .space | .rule | .bullets => 0

namespace Node

/-- What a node holds itself, field by field. -/
def ownFields : Node → List FieldValue
  | .str t => [.text t]
  | .rawInline format raw => [.text format, .text raw]
  | .rawBlock format raw => [.ofOption format, .text raw]
  | .codeBlock language code => [.ofOption language, .text code]
  | .header level identifier _ => [.level level, .text identifier]
  | .space | .rule | .styled .. | .bullets _ => []

theorem length_ownFields (n : Node) : n.ownFields.length = n.tag.fieldCount := by
  cases n <;> rfl

/-- A node is its kind, its fields and its children. -/
theorem ext_of_parts {a b : Node} (htag : a.tag = b.tag) (hfields : a.ownFields = b.ownFields)
    (hchildren : a.children = b.children) : a = b := by
  have hitems : ∀ {is js : List (List Node)},
      is.map (styled .plain) = js.map (styled .plain) ↔ is = js :=
    List.map_inj_right fun _ _ h => (styled.inj h).2
  cases a <;> cases b <;> simp_all [tag, ownFields, children, FieldValue.ofOption_inj]

/-- A run is told by its outlines and by the fields along its walk, even where
the row of fields goes on behind it. -/
theorem eq_of_outlines_of_fields (ns : List Node) {ms : List Node} {xs ys : List FieldValue}
    (houtlines : ns.map outline = ms.map outline)
    (hfields : (walk ns).flatMap ownFields ++ xs = (walk ms).flatMap ownFields ++ ys) :
    ns = ms ∧ xs = ys := by
  induction ns using runInduction generalizing ms xs ys with
  | nil =>
    obtain rfl := List.map_eq_nil_iff.mp houtlines.symm
    exact ⟨rfl, hfields⟩
  | cons n ns ihc ih =>
    cases ms with
    | nil => cases houtlines
    | cons m ms =>
      obtain ⟨hnode, hrun⟩ := List.cons.inj houtlines
      rw [outline_eq, outline_eq m] at hnode
      obtain ⟨htag, hchildren⟩ := Outline.node.inj hnode
      simp only [walk_cons, List.flatMap_cons, List.flatMap_append, List.append_assoc] at hfields
      -- Nodes of one kind have the same number of fields, so the row can be cut behind them.
      have hlength : n.ownFields.length = m.ownFields.length := by
        rw [length_ownFields, length_ownFields, htag]
      obtain ⟨hown, hinside⟩ := List.append_inj hfields hlength
      obtain ⟨hbelow, hbehind⟩ := ihc hchildren hinside
      obtain ⟨rfl, hrest⟩ := ih hrun hbehind
      exact ⟨by rw [ext_of_parts htag hown hbelow], hrest⟩

/-! ## The law -/

/-- The walk meets the kinds of the outlines in their order, as many nodes as
the outlines have, each node at every depth once and those inside it right
behind it. Two nodes are equal exactly when their outlines agree and so do the
fields of the nodes along their walks, in one row that does not tell where the
fields of one node end. -/
theorem walk_and_outline_describe_the_whole_tree :
    (∀ ns : List Node,
      (walk ns).map tag = ns.flatMap (fun n => n.outline.preorder) ∧
      (walk ns).length = (ns.map fun n => n.outline.size).sum ∧
      Tour ns (addressesIn ns)) ∧
    ∀ a b : Node, a = b ↔
      a.outline = b.outline ∧ (walk [a]).flatMap ownFields = (walk [b]).flatMap ownFields := by
  refine ⟨fun ns => ⟨?_, ?_, tour_addressesIn ns⟩, fun a b => ⟨?_, ?_⟩⟩
  · rw [map_tag_walk, Outline.preorders_eq, List.flatMap_map]
  · rw [length_walk, Outline.sizes_eq, List.map_map]
    rfl
  · rintro rfl
    exact ⟨rfl, rfl⟩
  · rintro ⟨houtline, hfields⟩
    have hrun : [a].map outline = [b].map outline := by
      rw [List.map_singleton, List.map_singleton, houtline]
    have heq := (eq_of_outlines_of_fields [a] hrun (congrArg (· ++ []) hfields)).1
    exact List.singleton_inj.mp heq

/-- The fields alone do not tell the node, and neither does the outline. -/
example :
    (walk [styled .strong [.str []]]).flatMap ownFields =
      (walk [styled .emph [.str []]]).flatMap ownFields ∧
    (codeBlock none []).outline = (codeBlock (some []) []).outline := by
  decide

end Node

end Lectern
