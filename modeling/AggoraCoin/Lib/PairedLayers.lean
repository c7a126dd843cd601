import Mathlib

namespace PairedLayers

variable {α β : Type*}

def pairs : List α → List (α × α)
  | [] => []
  | [left] => [(left, left)]
  | left :: right :: rest => (left, right) :: pairs rest

def pairUp (node : α → α → α) (layer : List α) : List α := (pairs layer).map fun pair => node pair.1 pair.2

/-- Pass after pass until one element is left. -/
def collapse (node : α → α → α) : Nat → List α → List α
  | 0, layer => layer
  | fuel + 1, layer => if 1 < layer.length then collapse node fuel (pairUp node layer) else layer

/-- The pairs of all the passes. -/
def allPairs (node : α → α → α) : Nat → List α → List (α × α)
  | 0, _ => []
  | fuel + 1, layer => if 1 < layer.length then pairs layer ++ allPairs node fuel (pairUp node layer) else []

/-- The leaves below the root in order: the same passes, joining instead of hashing. -/
def completed (leaves : List α) : List α := (collapse (· ++ ·) leaves.length (leaves.map ([·]))).headD []

theorem length_pairs (layer : List α) : (pairs layer).length = (layer.length + 1) / 2 := by
  induction layer using pairs.induct with
  | case1 => simp [pairs]
  | case2 left => simp [pairs]
  | case3 left right rest ih =>
    rw [pairs, List.length_cons, ih, List.length_cons, List.length_cons]
    omega

theorem length_pairUp (node : α → α → α) (layer : List α) : (pairUp node layer).length = (layer.length + 1) / 2 := by
  rw [pairUp, List.length_map, length_pairs]

theorem collapse_single (node : α → α → α) (fuel : Nat) (a : α) : collapse node fuel [a] = [a] := by
  cases fuel with
  | zero => rfl
  | succ fuel => exact if_neg (by simp)

section Completed

variable {layer : List (List α)}

theorem mem_flatten_pairUp {a : α} : a ∈ (pairUp (· ++ ·) layer).flatten ↔ a ∈ layer.flatten := by
  induction layer using pairs.induct with
  | case1 => rfl
  | case2 left => simp [pairUp, pairs]
  | case3 left right rest ih =>
    simp only [pairUp] at ih
    simp [pairUp, pairs, ih]

theorem flatten_prefix_pairUp (layer : List (List α)) : layer.flatten <+: (pairUp (· ++ ·) layer).flatten := by
  induction layer using pairs.induct with
  | case1 => exact List.prefix_rfl
  | case2 left => simp [pairUp, pairs]
  | case3 left right rest ih =>
    simp only [pairUp] at ih
    simpa [pairUp, pairs, List.prefix_append_right_inj] using ih

/-- With fuel for its length a nonempty layer collapses to one block, which starts with the layer
and holds nothing else. -/
theorem collapse_append {fuel : Nat} (nonempty : layer ≠ []) (enough : layer.length ≤ fuel + 1) :
    ∃ block, collapse (· ++ ·) fuel layer = [block] ∧ layer.flatten <+: block ∧
      ∀ a, a ∈ block ↔ a ∈ layer.flatten := by
  induction fuel generalizing layer with
  | zero =>
    have positive := List.length_pos_iff.mpr nonempty
    obtain ⟨block, rfl⟩ := List.length_eq_one_iff.mp (by omega : layer.length = 1)
    exact ⟨block, rfl, by simp, by simp⟩
  | succ fuel ih =>
    by_cases several : 1 < layer.length
    · have sized := length_pairUp (· ++ ·) layer
      have filled : pairUp (· ++ ·) layer ≠ [] := by
        refine List.length_pos_iff.mp ?_
        omega
      obtain ⟨block, root, starts, members⟩ := ih filled (by omega)
      refine ⟨block, ?_, (flatten_prefix_pairUp layer).trans starts, fun a => ?_⟩
      · rw [collapse, if_pos several, root]
      · rw [members, mem_flatten_pairUp]
    · have positive := List.length_pos_iff.mpr nonempty
      obtain ⟨block, rfl⟩ := List.length_eq_one_iff.mp (by omega : layer.length = 1)
      exact ⟨block, collapse_single _ _ _, by simp, by simp⟩

end Completed

section Leaves

variable {leaves others : List α}

theorem flatten_singletons (leaves : List α) : (leaves.map ([·])).flatten = leaves := by
  induction leaves with
  | nil => rfl
  | cons a rest ih => rw [List.map_cons, List.flatten_cons, ih, List.singleton_append]

theorem completed_spec (leaves : List α) : leaves <+: completed leaves ∧ ∀ a, a ∈ completed leaves ↔ a ∈ leaves := by
  by_cases nonempty : leaves = []
  · subst nonempty
    exact ⟨List.prefix_rfl, fun a => Iff.rfl⟩
  · have filled : leaves.map ([·]) ≠ [] := by simpa using nonempty
    have enough : (leaves.map ([·])).length ≤ leaves.length + 1 := by
      rw [List.length_map]
      omega
    obtain ⟨block, root, starts, members⟩ := collapse_append filled enough
    have head : completed leaves = block := by rw [completed, root, List.headD_cons]
    rw [flatten_singletons] at starts members
    rw [head]
    exact ⟨starts, members⟩

theorem completed_map (f : α → β) (leaves : List α) :
    completed (leaves.map f) = (completed leaves).map f := by
  have pass (layer : List (List α)) :
      pairUp (· ++ ·) (layer.map (List.map f)) = (pairUp (· ++ ·) layer).map (List.map f) := by
    induction layer using pairs.induct with
    | case1 => rfl
    | case2 left => simp [pairUp, pairs]
    | case3 left right rest ih =>
      simp only [pairUp] at ih
      simp [pairUp, pairs, ih]
  have passes (fuel : Nat) (layer : List (List α)) :
      collapse (· ++ ·) fuel (layer.map (List.map f)) = (collapse (· ++ ·) fuel layer).map (List.map f) := by
    induction fuel generalizing layer with
    | zero => rfl
    | succ fuel ih =>
      rw [collapse, collapse, List.length_map, pass, ih]
      split <;> rfl
  have ground : (leaves.map f).map ([·]) = (leaves.map ([·])).map (List.map f) := by simp
  rw [completed, completed, List.length_map, ground, passes]
  cases collapse (· ++ ·) leaves.length (leaves.map ([·])) with
  | nil => rfl
  | cons block rest => rfl

theorem completed_eq_nil_iff : completed leaves = [] ↔ leaves = [] := by
  have members := (completed_spec leaves).2
  rw [List.eq_nil_iff_forall_not_mem, List.eq_nil_iff_forall_not_mem]
  exact forall_congr' fun a => not_congr (members a)

/-- A list starts its completion, so lists of one length with one completion are equal. -/
theorem eq_of_completed_of_length (same : completed leaves = completed others)
    (sized : leaves.length = others.length) : leaves = others := by
  obtain ⟨rest, whole⟩ := (completed_spec leaves).1
  obtain ⟨rest', whole'⟩ := (completed_spec others).1
  exact (List.append_inj (whole.trans (same.trans whole'.symm)) sized).1

/-- Completing repeats elements, so lists without repeats with one completion are equal. -/
theorem eq_of_completed_of_nodup (same : completed leaves = completed others) (distinct : leaves.Nodup)
    (distinct' : others.Nodup) : leaves = others := by
  have perm : leaves.Perm others := by
    refine (List.perm_ext_iff_of_nodup distinct distinct').mpr fun a => ?_
    rw [← (completed_spec leaves).2, same, (completed_spec others).2]
  exact eq_of_completed_of_length same perm.length_eq

end Leaves

/-- `value` stands over `block` at height `height`: `leaf` says what stands over an element, `node` what over two
values of one height. -/
inductive Built (leaf : α → β → Prop) (node : β → β → β → Prop) : Nat → List α → β → Prop
  | leaf {a : α} {value : β} (stands : leaf a value) : Built leaf node 0 [a] value
  | node {height : Nat} {block block' : List α} {left right value : β} (first : Built leaf node height block left)
      (second : Built leaf node height block' right) (stands : node left right value) :
      Built leaf node (height + 1) (block ++ block') value

namespace Built

variable {leaf : α → β → Prop} {node : β → β → β → Prop} {height height' : Nat} {block block' : List α}
  {value value' : β}

theorem length_block (built : Built leaf node height block value) : block.length = 2 ^ height := by
  induction built with
  | leaf => rfl
  | node _ _ _ first second => rw [List.length_append, first, second, pow_succ, mul_two]

/-- When every value has one origin, it stands over one block. -/
theorem unique (leaves : ∀ a b value, leaf a value → leaf b value → a = b)
    (nodes : ∀ l r l' r' value, node l r value → node l' r' value → l = l' ∧ r = r')
    (apart : ∀ a l r value, leaf a value → ¬ node l r value) (built : Built leaf node height block value)
    (built' : Built leaf node height' block' value) : height = height' ∧ block = block' := by
  induction built generalizing height' block' with
  | leaf stands =>
    cases built' with
    | leaf stands' => exact ⟨rfl, by rw [leaves _ _ _ stands stands']⟩
    | node _ _ stands' => exact absurd stands' (apart _ _ _ _ stands)
  | node _ _ stands first second =>
    cases built' with
    | leaf stands' => exact absurd stands (apart _ _ _ _ stands')
    | node left right stands' =>
      obtain ⟨rfl, rfl⟩ := nodes _ _ _ _ _ stands stands'
      obtain ⟨heights, blocks⟩ := first left
      obtain ⟨_, blocks'⟩ := second right
      rw [heights, blocks, blocks']
      exact ⟨rfl, rfl⟩

/-- When values are computed, one block has one value. -/
theorem functional (leaves : ∀ a value value', leaf a value → leaf a value' → value = value')
    (nodes : ∀ l r value value', node l r value → node l r value' → value = value')
    (built : Built leaf node height block value) (built' : Built leaf node height' block value') : value = value' := by
  have sized := built.length_block.symm.trans built'.length_block
  have heights : height = height' := Nat.pow_right_injective le_rfl sized
  subst heights
  clear sized
  induction built generalizing value' with
  | leaf stands =>
    cases built' with
    | leaf stands' => exact leaves _ _ _ stands stands'
  | @node height block₁ block₂ left right value first second stands ih ih' =>
    generalize whole : block₁ ++ block₂ = block at built'
    cases built' with
    | @node _ other₁ other₂ left' right' _ first' second' stands' =>
      obtain ⟨rfl, rfl⟩ := List.append_inj whole (first.length_block.trans first'.length_block.symm)
      obtain rfl := ih first'
      obtain rfl := ih' second'
      exact nodes _ _ _ _ stands stands'

/-- One pass over values built over blocks. -/
theorem pass {join : β → β → β} {blocks : List (List α)} {values : List β}
    (built : List.Forall₂ (Built leaf node height) blocks values)
    (nodes : ∀ pair ∈ pairs values, ∀ height block block', Built leaf node height block pair.1 →
      Built leaf node height block' pair.2 → node pair.1 pair.2 (join pair.1 pair.2)) :
    List.Forall₂ (Built leaf node (height + 1)) (pairUp (· ++ ·) blocks) (pairUp join values) := by
  induction blocks using pairs.induct generalizing values with
  | case1 =>
    cases built
    exact .nil
  | case2 block =>
    cases built with
    | cons first rest =>
      cases rest
      have stands := nodes _ (List.mem_singleton_self _) _ _ _ first first
      exact .cons (.node first first stands) .nil
  | case3 block block' rest ih =>
    cases built with
    | cons first built =>
      cases built with
      | cons second built =>
        have stands := nodes _ (List.mem_cons_self ..) _ _ _ first second
        refine .cons (.node first second stands) (ih built fun pair member => ?_)
        exact nodes pair (List.mem_cons_of_mem _ member)

/-- All the passes: the value left stands over the block left. -/
theorem collapse {join : β → β → β} {fuel : Nat} {blocks : List (List α)} {values : List β} (nonempty : blocks ≠ [])
    (enough : blocks.length ≤ fuel + 1) (built : List.Forall₂ (Built leaf node height) blocks values)
    (nodes : ∀ pair ∈ allPairs join fuel values, ∀ height block block', Built leaf node height block pair.1 →
      Built leaf node height block' pair.2 → node pair.1 pair.2 (join pair.1 pair.2)) :
    ∃ height block value, PairedLayers.collapse (· ++ ·) fuel blocks = [block] ∧ PairedLayers.collapse join fuel values = [value] ∧
      Built leaf node height block value := by
  induction fuel generalizing height blocks values with
  | zero =>
    have positive := List.length_pos_iff.mpr nonempty
    obtain ⟨block, rfl⟩ := List.length_eq_one_iff.mp (by omega : blocks.length = 1)
    cases built with
    | cons first rest =>
      cases rest
      exact ⟨height, block, _, rfl, rfl, first⟩
  | succ fuel ih =>
    have aligned := built.length_eq
    by_cases several : 1 < blocks.length
    · have sized := length_pairUp (· ++ ·) blocks
      have filled : pairUp (· ++ ·) blocks ≠ [] := by
        refine List.length_pos_iff.mp ?_
        omega
      have several' : 1 < values.length := aligned ▸ several
      rw [allPairs, if_pos several'] at nodes
      have next := pass built fun pair member => nodes pair (List.mem_append_left _ member)
      obtain ⟨top, block, value, root, root', whole⟩ := ih filled (by omega) next fun pair member =>
        nodes pair (List.mem_append_right _ member)
      refine ⟨top, block, value, ?_, ?_, whole⟩
      · rw [PairedLayers.collapse, if_pos several, root]
      · rw [PairedLayers.collapse, if_pos several', root']
    · have positive := List.length_pos_iff.mpr nonempty
      obtain ⟨block, rfl⟩ := List.length_eq_one_iff.mp (by omega : blocks.length = 1)
      cases built with
      | cons first rest =>
        cases rest
        exact ⟨height, block, _, collapse_single _ _ _, collapse_single _ _ _, first⟩

/-- What the passes leave stands over the completed list. -/
theorem completed {join : β → β → β} {f : α → β} {leaves : List α} (nonempty : leaves ≠ [])
    (stands : ∀ a ∈ leaves, leaf a (f a))
    (nodes : ∀ pair ∈ allPairs join leaves.length (leaves.map f), ∀ height block block',
      Built leaf node height block pair.1 → Built leaf node height block' pair.2 →
        node pair.1 pair.2 (join pair.1 pair.2)) :
    ∃ height value, PairedLayers.collapse join leaves.length (leaves.map f) = [value] ∧
      Built leaf node height (PairedLayers.completed leaves) value := by
  have ground : List.Forall₂ (Built leaf node 0) (leaves.map ([·])) (leaves.map f) := by
    rw [List.forall₂_map_left_iff, List.forall₂_map_right_iff]
    exact List.forall₂_same.mpr fun a member => .leaf (stands a member)
  have filled : leaves.map ([·]) ≠ [] := by simpa using nonempty
  have enough : (leaves.map ([·])).length ≤ leaves.length + 1 := by
    rw [List.length_map]
    omega
  obtain ⟨height, block, value, root, root', whole⟩ := collapse filled enough ground nodes
  refine ⟨height, value, root', ?_⟩
  rwa [PairedLayers.completed, root]

end Built

end PairedLayers
