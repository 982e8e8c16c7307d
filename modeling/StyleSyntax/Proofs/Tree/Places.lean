import Mathlib.Data.List.Forall2
import Mathlib.Data.List.Nodup
import StyleSyntax.Tree.Node

/-!
# Places in a tree

A place is a path of indices: of a node at the top, of one of its items, of an item of that, and so
on. In the order of paths a node comes before its items, and they come before the nodes behind it.
The listing of a tree has the node of each place once, in this order, with the length of the path
below the top as its depth.
-/

namespace StyleSyntax

namespace Node

/-- What is found from a node by the indices of items. -/
def descendant? (node : Node) : List Nat → Option Node
  | [] => some node
  | i :: path => node.items?.bind fun items => items[i]?.bind fun item => item.descendant? path

/-- The node at a place of a tree. -/
def at? (nodes : List Node) : List Nat → Option Node
  | [] => none
  | i :: path => nodes[i]?.bind fun node => node.descendant? path

/-- The places of a tree in depth-first order: each node before its items, and these before the
nodes behind it. -/
structure IsDepthFirst (nodes : List Node) (places : List (List Nat)) : Prop where
  sorted : places.Pairwise (· < ·)
  mem_iff : ∀ place, place ∈ places ↔ (at? nodes place).isSome

mutual

/-- The paths from a node to all that is found from it. -/
def paths : Node → List (List Nat)
  | leaf _ => [[]]
  | block _ items _ => [] :: placesOf items

/-- The places of a tree. Those behind the first node are counted on from it. -/
def placesOf : List Node → List (List Nat)
  | [] => []
  | node :: nodes =>
    node.paths.map (List.cons 0) ++ (placesOf nodes).map (List.modifyHead Nat.succ)

end

variable {node : Node} {nodes : List Node} {i : Nat} {path place : List Nat}

/-- Below a node with a body are the places of its items. -/
theorem descendant?_block_cons (head : Head) (items : List Node) (source : Excerpt) (i : Nat)
    (path : List Nat) : (block head items source).descendant? (i :: path) = at? items (i :: path) :=
  rfl

/-- Nothing is found below a node without a body. -/
theorem descendant?_leaf_cons (l : Leaf) (i : Nat) (path : List Nat) :
    (leaf l).descendant? (i :: path) = none :=
  rfl

/-- The first node and what is found from it. -/
theorem at?_zero (node : Node) (nodes : List Node) (path : List Nat) :
    at? (node :: nodes) (0 :: path) = node.descendant? path :=
  rfl

/-- Behind the first node the others are found one index later. -/
theorem at?_succ (node : Node) (nodes : List Node) (i : Nat) (path : List Nat) :
    at? (node :: nodes) ((i + 1) :: path) = at? nodes (i :: path) :=
  rfl

/-- No place is empty. -/
theorem nil_notMem_placesOf (nodes : List Node) : [] ∉ placesOf nodes := by
  induction nodes with
  | nil => exact List.not_mem_nil
  | cons node nodes ih => simp [placesOf, ih]

/-- The places of the first node and of what is found from it. -/
theorem zero_cons_mem_placesOf :
    0 :: path ∈ placesOf (node :: nodes) ↔ path ∈ node.paths := by
  rw [placesOf, List.mem_append, List.mem_map, List.mem_map]
  constructor
  · rintro (⟨first, hfirst, heq⟩ | ⟨before, hbefore, heq⟩)
    · cases heq
      exact hfirst
    · cases before <;> cases heq
  · intro h
    exact .inl ⟨path, h, rfl⟩

/-- The places behind the first node. -/
theorem succ_cons_mem_placesOf :
    (i + 1) :: path ∈ placesOf (node :: nodes) ↔ i :: path ∈ placesOf nodes := by
  rw [placesOf, List.mem_append, List.mem_map, List.mem_map]
  constructor
  · rintro (⟨first, hfirst, heq⟩ | ⟨before, hbefore, heq⟩)
    · cases heq
    · cases before with
      | nil => cases heq
      | cons j rest =>
        cases heq
        exact hbefore
  · intro h
    exact .inr ⟨i :: path, h, rfl⟩

mutual

/-- The paths from a node lead to what is found from it. -/
theorem mem_paths_iff (node : Node) (path : List Nat) :
    path ∈ node.paths ↔ (node.descendant? path).isSome := by
  match node, path with
  | .leaf l, [] => simp [paths, descendant?]
  | .leaf l, i :: path => simp [paths, descendant?_leaf_cons]
  | .block head items source, [] => simp [paths, descendant?]
  | .block head items source, i :: path =>
    simp [paths, descendant?_block_cons, mem_placesOf_iff items]

/-- The places of a tree are those where a node is found. -/
theorem mem_placesOf_iff (nodes : List Node) (place : List Nat) :
    place ∈ placesOf nodes ↔ (at? nodes place).isSome := by
  match nodes, place with
  | [], place => cases place <;> simp [placesOf, at?]
  | node :: nodes, [] => simp [nil_notMem_placesOf, at?]
  | node :: nodes, 0 :: path => rw [zero_cons_mem_placesOf, at?_zero, mem_paths_iff node]
  | node :: nodes, (i + 1) :: path =>
    rw [succ_cons_mem_placesOf, at?_succ, mem_placesOf_iff nodes]

end

/-- Places stay in order one index later. -/
theorem modifyHead_succ_lt {later : List Nat} (h : place < later) :
    place.modifyHead Nat.succ < later.modifyHead Nat.succ := by
  cases place with
  | nil =>
    cases later with
    | nil => cases h
    | cons j rest => exact List.nil_lt_cons _ _
  | cons i path =>
    cases later with
    | nil => cases h
    | cons j rest =>
      rw [List.cons_lt_cons_iff] at h
      rw [List.modifyHead_cons, List.modifyHead_cons, List.cons_lt_cons_iff]
      exact h.imp Nat.succ_lt_succ fun h => ⟨congrArg Nat.succ h.1, h.2⟩

mutual

/-- The paths from a node are in order. -/
theorem pairwise_paths (node : Node) : node.paths.Pairwise (· < ·) := by
  match node with
  | .leaf l => exact List.pairwise_singleton _ _
  | .block head items source =>
    rw [paths, List.pairwise_cons]
    refine ⟨fun place hplace => ?_, pairwise_placesOf items⟩
    cases place with
    | nil => exact absurd hplace (nil_notMem_placesOf items)
    | cons i path => exact List.nil_lt_cons _ _

/-- The places of a tree are in order. -/
theorem pairwise_placesOf (nodes : List Node) : (placesOf nodes).Pairwise (· < ·) := by
  match nodes with
  | [] => exact .nil
  | node :: nodes =>
    rw [placesOf, List.pairwise_append]
    refine ⟨?_, (pairwise_placesOf nodes).map _ fun _ _ => modifyHead_succ_lt, ?_⟩
    · refine (pairwise_paths node).map _ fun path later h => ?_
      exact List.cons_lt_cons_iff.mpr (.inr ⟨rfl, h⟩)
    · intro place hplace later hlater
      obtain ⟨path, -, rfl⟩ := List.mem_map.mp hplace
      obtain ⟨before, hbefore, rfl⟩ := List.mem_map.mp hlater
      cases before with
      | nil => exact absurd hbefore (nil_notMem_placesOf nodes)
      | cons i rest => exact List.cons_lt_cons_iff.mpr (.inl (Nat.succ_pos i))

end

/-- The places of a tree are its places in depth-first order. -/
theorem isDepthFirst_placesOf (nodes : List Node) : IsDepthFirst nodes (placesOf nodes) where
  sorted := pairwise_placesOf nodes
  mem_iff := mem_placesOf_iff nodes

/-- The places of a tree have one depth-first order. -/
theorem IsDepthFirst.eq_placesOf {places : List (List Nat)} (h : IsDepthFirst nodes places) :
    places = placesOf nodes := by
  have hne {a b : List Nat} (hlt : a < b) : a ≠ b := by
    rintro rfl
    exact List.lt_irrefl a hlt
  have hperm : places.Perm (placesOf nodes) := by
    rw [List.perm_ext_iff_of_nodup (h.sorted.imp hne) ((pairwise_placesOf nodes).imp hne)]
    intro place
    rw [h.mem_iff, mem_placesOf_iff]
  exact hperm.eq_of_pairwise (fun _ _ _ _ hab hba => absurd hba (List.lt_asymm hab)) h.sorted
    (pairwise_placesOf nodes)

mutual

/-- The listing of a node has what is found from it, in the order of the paths. -/
theorem forall₂_paths (depth : Nat) (node : Node) :
    List.Forall₂ (fun path entry => node.descendant? path = some entry.2 ∧
      entry.1 = depth + path.length) node.paths (listing depth node) := by
  match node with
  | .leaf l => exact .cons ⟨rfl, rfl⟩ .nil
  | .block head items source =>
    refine .cons ⟨rfl, rfl⟩ ((forall₂_placesOf (depth + 1) items).imp ?_)
    rintro path entry ⟨hat, hdepth⟩
    cases path with
    | nil => cases hat
    | cons i path => exact ⟨hat, by rw [List.length_cons] at hdepth ⊢; omega⟩

/-- The listing of a tree has the nodes of its places, in their order. -/
theorem forall₂_placesOf (depth : Nat) (nodes : List Node) :
    List.Forall₂ (fun place entry => at? nodes place = some entry.2 ∧
      entry.1 + 1 = depth + place.length) (placesOf nodes) (listingOf depth nodes) := by
  match nodes with
  | [] => exact .nil
  | node :: nodes =>
    rw [placesOf, listingOf]
    refine List.rel_append ?_ ?_
    · rw [List.forall₂_map_left_iff]
      refine (forall₂_paths depth node).imp fun path entry h => ⟨h.1, ?_⟩
      rw [h.2, List.length_cons]
      rfl
    · rw [List.forall₂_map_left_iff]
      refine (forall₂_placesOf depth nodes).imp ?_
      rintro place entry ⟨hat, hdepth⟩
      cases place with
      | nil => cases hat
      | cons i path => exact ⟨hat, hdepth⟩

end

/-- The nodes of a listing are those at the places of the tree. -/
theorem exists_mem_listingOf_iff (depth : Nat) :
    (∃ entry ∈ listingOf depth nodes, entry.2 = node) ↔ ∃ place, at? nodes place = some node := by
  have hall := forall₂_placesOf depth nodes
  constructor
  · rintro ⟨entry, hentry, rfl⟩
    obtain ⟨i, hi, rfl⟩ := List.mem_iff_getElem.mp hentry
    have hplace : i < (placesOf nodes).length := by rwa [hall.length_eq]
    exact ⟨_, (hall.get hplace hi).1⟩
  · rintro ⟨place, hplace⟩
    have hmem := (mem_placesOf_iff nodes place).mpr (by rw [hplace]; rfl)
    obtain ⟨i, hi, rfl⟩ := List.mem_iff_getElem.mp hmem
    have hentry : i < (listingOf depth nodes).length := by rwa [← hall.length_eq]
    have hat := (hall.get hi hentry).1
    exact ⟨_, List.getElem_mem hentry, Option.some.inj (hat.symm.trans hplace)⟩

end Node

end StyleSyntax
