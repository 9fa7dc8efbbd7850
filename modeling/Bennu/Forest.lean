import Mathlib

/-! Forests of numbered nodes in postorder: children come before their parents, and each
node is a root or a child of one node, once. Ranges that tile a table. -/
namespace Forest

/-! ### Ranges -/

/-- Ranges, given by where each begins and its length, one behind the other. -/
def Covers : List (Nat × Nat) → Nat → Nat → Prop
  | [],first,last => first = last
  | range :: rest,first,last => range.1 = first ∧ Covers rest (first + range.2) last

section ranges

variable {ranges : List (Nat × Nat)} {range : Nat × Nat} {first last count : Nat}

theorem Covers.snoc (covers : Covers ranges first last) (count : Nat) :
    Covers (ranges ++ [(last,count)]) first (last + count) := by
  induction ranges generalizing first with
  | nil =>
    cases covers
    exact ⟨rfl,rfl⟩
  | cons range rest ih => exact ⟨covers.1,ih covers.2⟩

theorem Covers.le (covers : Covers ranges first last) : first ≤ last := by
  induction ranges generalizing first with
  | nil => exact Nat.le_of_eq covers
  | cons range rest ih => exact Nat.le_trans (Nat.le_add_right _ _) (ih covers.2)

theorem Covers.within (covers : Covers ranges first last) (member : range ∈ ranges) :
    first ≤ range.1 ∧ range.1 + range.2 ≤ last := by
  induction ranges generalizing first with
  | nil => cases member
  | cons head rest ih =>
    obtain ⟨begins,later⟩ := covers
    rcases List.mem_cons.mp member with rfl | member
    · exact ⟨Nat.le_of_eq begins.symm,begins ▸ later.le⟩
    · exact ⟨Nat.le_trans (Nat.le_add_right _ _) (ih later member).1,(ih later member).2⟩

/-- The ranges are apart, in their order. -/
theorem Covers.pairwise (covers : Covers ranges first last) :
    ranges.Pairwise fun range later => range.1 + range.2 ≤ later.1 := by
  induction ranges generalizing first with
  | nil => exact .nil
  | cons head rest ih =>
    obtain ⟨begins,later⟩ := covers
    exact .cons (fun other member => begins ▸ (later.within member).1) (ih later)

/-- Every place of the table lies in a range. -/
theorem Covers.covered (covers : Covers ranges first last) {place : Nat} (begins : first ≤ place)
    (inside : place < last) : ∃ range ∈ ranges, range.1 ≤ place ∧ place < range.1 + range.2 := by
  induction ranges generalizing first with
  | nil =>
    cases covers
    omega
  | cons head rest ih =>
    obtain ⟨rfl,later⟩ := covers
    by_cases here : place < head.1 + head.2
    · exact ⟨head,List.mem_cons_self,begins,here⟩
    · obtain ⟨range,member,bounds⟩ := ih later (by omega)
      exact ⟨range,List.mem_cons_of_mem _ member,bounds⟩

/-- The slices of a table along its ranges make up the table. -/
theorem Covers.flatten {α : Type} {table : List α} (covers : Covers ranges first last) (inside : last ≤ table.length) :
    ranges.flatMap (fun range => (table.drop range.1).take range.2) = (table.drop first).take (last - first) := by
  induction ranges generalizing first with
  | nil =>
    cases covers
    simp
  | cons range rest ih =>
    obtain ⟨rfl,later⟩ := covers
    have order := later.le
    have split : last - range.1 = range.2 + (last - (range.1 + range.2)) := by omega
    rw [List.flatMap_cons,ih later,split,List.take_add,List.drop_drop]

end ranges

/-! ### Forests -/

/-- The roots and the children of the nodes below `size` are these nodes, each once. -/
structure Postorder (size : Nat) (children : Nat → List Nat) (roots : List Nat) : Prop where
  descends : ∀ node, ∀ child ∈ children node, child < node
  once : ((List.range size).flatMap children ++ roots).Perm (List.range size)

/-- From a node to those of its tree. -/
def Reaches (children : Nat → List Nat) : Nat → Nat → Prop :=
  Relation.ReflTransGen fun parent child => child ∈ children parent

section forests

variable {size node parent other root : Nat} {children children' : Nat → List Nat} {roots ids : List Nat}

namespace Postorder

theorem nodup (forest : Postorder size children roots) :
    ((List.range size).flatMap children ++ roots).Nodup :=
  forest.once.nodup_iff.mpr List.nodup_range

theorem root_lt (forest : Postorder size children roots) (member : root ∈ roots) : root < size :=
  List.mem_range.mp (forest.once.mem_iff.mp (List.mem_append_right _ member))

theorem covered (forest : Postorder size children roots) (inside : node < size) :
    node ∈ roots ∨ ∃ parent < size, node ∈ children parent := by
  have member := forest.once.mem_iff.mpr (List.mem_range.mpr inside)
  rcases List.mem_append.mp member with member | member
  · obtain ⟨parent,below,child⟩ := List.mem_flatMap.mp member
    exact .inr ⟨parent,List.mem_range.mp below,child⟩
  · exact .inl member

theorem unparented (forest : Postorder size children roots) (member : root ∈ roots) (inside : parent < size) :
    root ∉ children parent := by
  intro child
  have apart := (List.nodup_append.mp forest.nodup).2.2
  exact apart root (List.mem_flatMap.mpr ⟨parent,List.mem_range.mpr inside,child⟩) root member rfl

theorem parent_unique (forest : Postorder size children roots) (inside : parent < size) (below : other < size)
    (child : node ∈ children parent) (again : node ∈ children other) : parent = other := by
  have apart := (List.nodup_flatMap.mp (List.nodup_append.mp forest.nodup).1).2
  by_contra different
  have symmetric : Std.Symm (Function.onFun List.Disjoint children) := ⟨fun _ _ => List.Disjoint.symm⟩
  exact apart.forall (List.mem_range.mpr inside) (List.mem_range.mpr below) different child again

/-- A node has each of its children once. -/
theorem children_nodup (forest : Postorder size children roots) (inside : parent < size) :
    (children parent).Nodup :=
  (List.nodup_flatMap.mp (List.nodup_append.mp forest.nodup).1).1 parent (List.mem_range.mpr inside)

/-- A node that is no root is the child of one node. -/
theorem existsUnique_parent (forest : Postorder size children roots) (inside : node < size) (child : node ∉ roots) :
    ∃! parent, parent < size ∧ node ∈ children parent := by
  obtain ⟨parent,below,found⟩ := (forest.covered inside).resolve_left child
  exact ⟨parent,⟨below,found⟩,fun other again => forest.parent_unique again.1 below again.2 found⟩

theorem reaches_le (forest : Postorder size children roots) (reaches : Reaches children root node) : node ≤ root := by
  induction reaches with
  | refl => exact Nat.le_refl _
  | tail _ child ih => exact Nat.le_trans (Nat.le_of_lt (forest.descends _ _ child)) ih

/-- Every node is in the tree of one root. -/
theorem existsUnique_root (forest : Postorder size children roots) (inside : node < size) :
    ∃! root, root ∈ roots ∧ Reaches children root node := by
  -- Parents come later: the induction is on how many nodes do.
  obtain ⟨left,leftIs⟩ : ∃ left, left = size - node := ⟨_,rfl⟩
  induction left using Nat.strong_induction_on generalizing node with
  | _ left ih =>
    by_cases rooted : node ∈ roots
    · refine ⟨node,⟨rooted,.refl⟩,?_⟩
      rintro other ⟨member,reaches⟩
      rcases Relation.ReflTransGen.cases_tail reaches with same | ⟨parent,above,child⟩
      · exact same.symm
      · have below := Nat.lt_of_le_of_lt (forest.reaches_le above) (forest.root_lt member)
        exact absurd child (forest.unparented rooted below)
    · obtain ⟨parent,below,child⟩ := (forest.covered inside).resolve_left rooted
      have later := forest.descends _ _ child
      obtain ⟨root,⟨member,reaches⟩,only⟩ := ih (size - parent) (by omega) below rfl
      refine ⟨root,⟨member,reaches.tail child⟩,?_⟩
      rintro other ⟨otherMember,otherReaches⟩
      rcases Relation.ReflTransGen.cases_tail otherReaches with same | ⟨between,above,again⟩
      · exact absurd (same ▸ otherMember) rooted
      · have under := Nat.lt_of_le_of_lt (forest.reaches_le above) (forest.root_lt otherMember)
        cases forest.parent_unique under below again child
        exact only other ⟨otherMember,above⟩

/-- A new node takes the last roots as its children. -/
theorem adopt (forest : Postorder size children (roots ++ ids)) (same : ∀ node < size, children' node = children node)
    (taken : children' size = ids) (beyond : ∀ node, size < node → children' node = []) :
    Postorder (size + 1) children' (roots ++ [size]) where
  descends := by
    intro node child member
    rcases Nat.lt_trichotomy node size with below | rfl | above
    · rw [same node below] at member
      exact forest.descends node child member
    · rw [taken] at member
      exact forest.root_lt (List.mem_append_right _ member)
    · rw [beyond node above] at member
      cases member
  once := by
    have kept : (List.range size).flatMap children' = (List.range size).flatMap children :=
      List.flatMap_congr fun node member => same node (List.mem_range.mp member)
    rw [List.range_succ,List.flatMap_append,List.flatMap_singleton,taken,kept]
    have regrouped : ((List.range size).flatMap children ++ ids ++ (roots ++ [size])).Perm
        ((List.range size).flatMap children ++ (roots ++ ids) ++ [size]) := by
      rw [← List.append_assoc,List.append_assoc _ ids]
      exact (List.Perm.append_left _ List.perm_append_comm).append_right _
    exact regrouped.trans (forest.once.append_right _)

end Postorder

end forests

end Forest
