import Mathlib.Algebra.BigOperators.Group.List.Basic
import Mathlib.Logic.Relation
import Bennu.MarkTable
import Bennu.StacklessWalk

/-! Tables whose nodes are one tree under the last of them, and the walks that visit them
from a stack. The nodes done and the nodes waiting are the root and the children of the
nodes done. -/
namespace TreeTable

open MarkTable StacklessWalk

/-- Children come before their parent, every node is reached from the root, which is the last
of them, and every node but the root and every edge slot is used exactly once. -/
structure Exact (size slots : Nat) (children edges : Nat → List Nat) : Prop where
  earlier : ∀ i < size, ∀ c ∈ children i, c < i
  reached : ∀ i < size, Relation.ReflTransGen (fun p c => c ∈ children p) (size - 1) i
  nodes : ((List.range size).flatMap children).Perm (List.range (size - 1))
  edges : ((List.range size).flatMap edges).Perm (List.range slots)

/-- A walk in front of its stack, with the nodes that it has visited. -/
structure Walk (children : Nat → List Nat) (root : Nat) (stack done : List Nat) : Prop where
  waiting : (stack ++ done).Perm (root :: done.flatMap children)
  earlier : ∀ i ∈ done, ∀ c ∈ children i, c < i
  below : ∀ c ∈ done.flatMap children, c < root
  distinct : (done.flatMap children).Nodup

section

variable {children edges : Nat → List Nat} {root size slots i : Nat} {stack done pushed : List Nat}

theorem Walk.start (children : Nat → List Nat) (root : Nat) : Walk children root [root] [] :=
  ⟨by simp,by simp,by simp,by simp⟩

theorem Walk.le_root (walk : Walk children root stack done) (member : i ∈ stack ++ done) : i ≤ root := by
  rcases List.mem_cons.mp (walk.waiting.mem_iff.mp member) with rfl | child
  · exact Nat.le_refl _
  · exact Nat.le_of_lt (walk.below i child)

/-- No node is waiting twice or once more after its visit. -/
theorem Walk.nodup (walk : Walk children root stack done) : (stack ++ done).Nodup :=
  walk.waiting.nodup_iff.mpr (List.nodup_cons.mpr
    ⟨fun member => Nat.lt_irrefl _ (walk.below root member),walk.distinct⟩)

theorem Walk.fresh (walk : Walk children root (i :: stack) done) : i ∉ done :=
  fun member => (List.nodup_cons.mp walk.nodup).1 (List.mem_append_right _ member)

/-- A visit pushes the children of its node, in any order. -/
theorem Walk.step (walk : Walk children root (i :: stack) done) (order : pushed.Perm (children i))
    (earlier : ∀ c ∈ children i, c < i) (distinct : ((i :: done).flatMap children).Nodup) :
    Walk children root (pushed ++ stack) (i :: done) := by
  have within := walk.le_root (List.mem_append_left _ (List.mem_cons_self ..))
  have below : ∀ c ∈ (i :: done).flatMap children, c < root := by
    intro c member
    rcases List.mem_append.mp (List.flatMap_cons ▸ member) with child | old
    · exact Nat.lt_of_lt_of_le (earlier c child) within
    · exact walk.below c old
  refine ⟨?_,List.forall_mem_cons.mpr ⟨earlier,walk.earlier⟩,below,distinct⟩
  rw [List.flatMap_cons,List.append_assoc]
  calc (pushed ++ (stack ++ i :: done)).Perm (children i ++ (stack ++ i :: done)) :=
      order.append_right _
    _ |>.Perm (children i ++ (i :: (stack ++ done))) := List.Perm.append_left _ List.perm_middle
    _ |>.Perm (children i ++ (root :: done.flatMap children)) :=
      List.Perm.append_left _ walk.waiting
    _ |>.Perm (root :: (children i ++ done.flatMap children)) := List.perm_middle

/-- A walk with an empty stack has been everywhere that the root leads to. -/
theorem Walk.mem_of_reached (walk : Walk children root [] done)
    (reached : Relation.ReflTransGen (fun p c => c ∈ children p) root i) : i ∈ done := by
  have waiting : done.Perm (root :: done.flatMap children) := walk.waiting
  induction reached with
  | refl => exact waiting.mem_iff.mpr (List.mem_cons_self ..)
  | tail _ child ih =>
    exact waiting.mem_iff.mpr (List.mem_cons_of_mem _ (List.mem_flatMap.mpr ⟨_,ih,child⟩))

/-- It has been nowhere else. -/
theorem Walk.reached (walk : Walk children root [] done) (member : i ∈ done) :
    Relation.ReflTransGen (fun p c => c ∈ children p) root i := by
  have waiting : done.Perm (root :: done.flatMap children) := walk.waiting
  have inside : ∀ j ∈ done, j ≤ root := fun j isDone => walk.le_root (List.mem_append_right _ isDone)
  obtain ⟨gap,isGap⟩ : ∃ gap, gap = root - i := ⟨_,rfl⟩
  induction gap using Nat.strongRecOn generalizing i with
  | _ gap ih =>
    rcases List.mem_cons.mp (waiting.mem_iff.mp member) with rfl | child
    · exact .refl
    · obtain ⟨p,isDone,child⟩ := List.mem_flatMap.mp child
      have before := walk.earlier p isDone i child
      have within := inside p isDone
      exact (ih (root - p) (by omega) isDone rfl).tail child

/-- A walk that ends with every node visited and every slot claimed has found a tree. -/
theorem Walk.exact (walk : Walk children (size - 1) [] done) (inhabited : 0 < size)
    (all : ∀ i < size, i ∈ done) (claimed : (done.flatMap edges).Nodup)
    (inside : ∀ e ∈ done.flatMap edges, e < slots) (filled : ∀ e < slots, e ∈ done.flatMap edges) :
    Exact size slots children edges := by
  have visited : done.Perm (List.range size) :=
    perm_range walk.nodup (fun i member => by
      have within := walk.le_root (List.mem_append_right _ member)
      omega) all
  refine ⟨fun i less => walk.earlier i (all i less),fun i less => walk.reached (all i less),?_,
    (visited.flatMap_right _).symm.trans (perm_range claimed inside filled)⟩
  obtain ⟨last,rfl⟩ : ∃ last, size = last + 1 := ⟨size - 1,by omega⟩
  have whole := visited.symm.trans walk.waiting
  rw [List.range_succ] at whole
  have rootLast : (List.range last ++ [last]).Perm (last :: List.range last) :=
    List.perm_append_singleton _ _
  exact ((visited.flatMap_right _).symm.trans (rootLast.symm.trans whole).cons_inv.symm)

namespace Exact

/-- Where every node but the last is some later node's child, the last one leads to all. -/
theorem of_parents (inhabited : 0 < size) (earlier : ∀ i < size, ∀ c ∈ children i, c < i)
    (nodes : ((List.range size).flatMap children).Perm (List.range (size - 1)))
    (claimed : ((List.range size).flatMap edges).Perm (List.range slots)) :
    Exact size slots children edges := by
  refine ⟨earlier,fun i less => ?_,nodes,claimed⟩
  obtain ⟨gap,isGap⟩ : ∃ gap, gap = size - 1 - i := ⟨_,rfl⟩
  induction gap using Nat.strongRecOn generalizing i with
  | _ gap ih =>
    rcases Nat.eq_or_lt_of_le (Nat.le_sub_one_of_lt less) with rfl | below
    · exact .refl
    · obtain ⟨p,member,child⟩ := List.mem_flatMap.mp (nodes.mem_iff.mpr (List.mem_range.mpr below))
      have inside := List.mem_range.mp member
      have before := earlier p inside i child
      exact (ih (size - 1 - p) (by omega) p inside rfl).tail child

/-- Nodes of a tree have different children. -/
theorem children_nodup (exact : Exact size slots children edges) (distinct : done.Nodup)
    (bound : ∀ i ∈ done, i < size) : (done.flatMap children).Nodup :=
  nodup_flatMap_of_subset distinct (fun i member => List.mem_range.mpr (bound i member))
    (exact.nodes.nodup_iff.mpr List.nodup_range)

theorem edges_nodup (exact : Exact size slots children edges) (distinct : done.Nodup)
    (bound : ∀ i ∈ done, i < size) : (done.flatMap edges).Nodup :=
  nodup_flatMap_of_subset distinct (fun i member => List.mem_range.mpr (bound i member))
    (exact.edges.nodup_iff.mpr List.nodup_range)

/-- A walk of a tree ends with all its nodes visited and all its slots claimed. -/
theorem visited (exact : Exact size slots children edges) (inhabited : 0 < size)
    (walk : Walk children (size - 1) [] done) : done.Perm (List.range size) :=
  perm_range walk.nodup (fun i member => by
    have within := walk.le_root (List.mem_append_right _ member)
    omega) fun i less => walk.mem_of_reached (exact.reached i less)

/-- The parent of a child; any number for a node that is no child. -/
def parentIn (size : Nat) (children : Nat → List Nat) (c : Nat) : Nat :=
  ((List.range size).find? fun p => c ∈ children p).getD 0

theorem parent_eq (exact : Exact size slots children edges) {c : Nat} (inside : i < size)
    (child : c ∈ children i) : parentIn size children c = i := by
  have distinct := exact.nodes.nodup_iff.mpr List.nodup_range
  unfold parentIn
  cases found : (List.range size).find? fun p => c ∈ children p with
  | none =>
    have absent := List.find?_eq_none.mp found i (List.mem_range.mpr inside)
    exact absurd (by simpa using child) absent
  | some p =>
    have holds : c ∈ children p := by simpa using List.find?_some found
    have within := List.mem_of_find?_eq_some found
    by_contra different
    exact not_mem_of_nodup_flatMap distinct within (List.mem_range.mpr inside) different holds child

/-- The forest of a tree's table. -/
def forest (exact : Exact size slots children edges) (outside : ∀ i, size ≤ i → children i = []) :
    Forest where
  children := children
  parent := parentIn size children
  earlier := by
    intro i c child
    rcases Nat.lt_or_ge i size with inside | beyond
    · exact exact.earlier i inside c child
    · rw [outside i beyond] at child
      cases child
  linked := by
    intro i c child
    rcases Nat.lt_or_ge i size with inside | beyond
    · exact exact.parent_eq inside child
    · rw [outside i beyond] at child
      cases child
  distinct := by
    intro i
    rcases Nat.lt_or_ge i size with inside | beyond
    · have single := exact.children_nodup (List.nodup_singleton i) (by simpa using inside)
      simpa using single
    · rw [outside i beyond]
      exact List.nodup_nil

/-- From the root every node is walked once. -/
theorem order_perm (exact : Exact size slots children edges) (inhabited : 0 < size)
    (outside : ∀ i, size ≤ i → children i = []) :
    ((exact.forest outside).order (size - 1)).Perm (List.range size) := by
  refine (List.perm_ext_iff_of_nodup (Forest.order_nodup _) List.nodup_range).mpr fun i => ⟨?_,?_⟩
  · intro member
    have within := Forest.le_of_mem_order member
    exact List.mem_range.mpr (by omega)
  · intro inside
    refine Forest.mem_order_root (fun j less => ?_) (by have := List.mem_range.mp inside; omega)
    obtain ⟨p,member,child⟩ := List.mem_flatMap.mp (exact.nodes.mem_iff.mpr (List.mem_range.mpr less))
    exact ⟨p,by have := List.mem_range.mp member; omega,child⟩

/-- What the nodes of the whole tree weigh together. -/
theorem weight_root (exact : Exact size slots children edges) (inhabited : 0 < size)
    (outside : ∀ i, size ≤ i → children i = []) (w : Nat → Nat) :
    (exact.forest outside).weight w (size - 1) = ((List.range size).map w).sum :=
  ((exact.order_perm inhabited outside).map w).sum_eq

end Exact
end
end TreeTable
