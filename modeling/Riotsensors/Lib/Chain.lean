import Mathlib.Data.List.Basic

/-! Singly linked lists in a store of nodes, with a pointer to the first and one to the last.
Pointers are places in the store; `none` is NULL. -/

namespace Chain

variable {α : Type*}

structure Node (α : Type*) where
  value : α
  next : Option ℕ

end Chain

structure Chain (α : Type*) where
  nodes : List (Chain.Node α)
  first : Option ℕ
  last : Option ℕ

namespace Chain

variable {α : Type*}

def empty : Chain α := ⟨[], none, none⟩

/-- A new node behind the last one, which is made to point at it. -/
def append (c : Chain α) (a : α) : Chain α :=
  let current := c.nodes.length
  match c.last with
  | none => ⟨c.nodes ++ [⟨a, none⟩], some current, some current⟩
  | some last =>
    ⟨c.nodes.modify last (fun node => { node with next := some current }) ++ [⟨a, none⟩], c.first,
      some current⟩

/-- The values from a pointer on to NULL, in at most the given number of nodes. `none`: there are
more, or a pointer points nowhere. -/
def walk (nodes : List (Node α)) : ℕ → Option ℕ → Option (List α)
  | _, none => some []
  | 0, some _ => none
  | budget + 1, some i => do
    let node ← nodes[i]?
    let rest ← walk nodes budget node.next
    return node.value :: rest

def toList (c : Chain α) : Option (List α) := walk c.nodes c.nodes.length c.first

/-- The chain of the values, in the order of the store. -/
def ofList (as : List α) : Chain α where
  nodes := as.mapIdx fun i a => ⟨a, if i + 1 < as.length then some (i + 1) else none⟩
  first := if as = [] then none else some 0
  last := if as = [] then none else some (as.length - 1)

theorem ofList_nil : ofList ([] : List α) = empty := rfl

@[simp] theorem length_nodes_ofList (as : List α) : (ofList as).nodes.length = as.length := by
  simp [ofList]

theorem getElem?_nodes_ofList (as : List α) (i : ℕ) : (ofList as).nodes[i]? =
    as[i]?.map fun a => ⟨a, if i + 1 < as.length then some (i + 1) else none⟩ := by
  rw [ofList, List.getElem?_mapIdx]

/-- The last node of a chain is made to point at a new one. -/
theorem nodes_ofList_concat (as : List α) (b a : α) :
    (ofList (as ++ [b])).nodes.modify as.length
        (fun node => { node with next := some (as.length + 1) }) ++ [⟨a, none⟩] =
      (ofList (as ++ [b] ++ [a])).nodes := by
  refine List.ext_getElem? fun i => ?_
  rw [List.getElem?_append, List.getElem?_modify, getElem?_nodes_ofList, getElem?_nodes_ofList,
    List.length_modify, length_nodes_ofList]
  simp only [List.length_append, List.length_singleton]
  rcases Nat.lt_trichotomy i as.length with hlt | rfl | hgt
  · have hne : as.length ≠ i := by omega
    rw [if_pos (by omega), List.append_assoc, List.getElem?_append_left hlt,
      List.getElem?_append_left hlt, List.getElem?_eq_getElem hlt]
    have hfirst : i + 1 < as.length + 1 := by omega
    have hlast : i + 1 < as.length + 1 + 1 := by omega
    simp only [Option.map_eq_map, Option.map_some, if_pos hfirst, if_pos hlast, if_neg hne]
  · simp
  · rw [if_neg (by omega)]
    rcases Nat.eq_or_lt_of_le hgt with rfl | hbeyond
    · simp
    · have hbeyond' : as.length + 1 < i := hbeyond
      rw [List.getElem?_eq_none (by simp only [List.length_singleton]; omega),
        List.getElem?_eq_none (by simp only [List.length_append, List.length_singleton]; omega)]
      rfl

theorem append_ofList (as : List α) (a : α) : (ofList as).append a = ofList (as ++ [a]) := by
  rcases as.eq_nil_or_concat with rfl | ⟨bs, b, rfl⟩
  · rfl
  · have hlast : (ofList (bs ++ [b])).last = some bs.length := by simp [ofList]
    have hnodes := nodes_ofList_concat bs b a
    rw [List.concat_eq_append, append, hlast]
    dsimp only
    rw [length_nodes_ofList, List.length_append, List.length_singleton, hnodes]
    simp [ofList]

/-- From a node on the walk reads the values from its place on. -/
theorem walk_ofList (as : List α) {i budget : ℕ} (hi : i ≤ as.length)
    (hbudget : as.length - i ≤ budget) :
    walk (ofList as).nodes budget (if i < as.length then some i else none) =
      some (as.drop i) := by
  induction budget generalizing i with
  | zero =>
    rw [if_neg (by omega), List.drop_eq_nil_of_le (by omega)]
    rfl
  | succ budget ih =>
    by_cases hlt : i < as.length
    · have hnode : (ofList as).nodes[i]? =
          some ⟨as[i], if i + 1 < as.length then some (i + 1) else none⟩ := by
        rw [getElem?_nodes_ofList, List.getElem?_eq_getElem hlt]
        rfl
      have hrest := ih hlt (by omega)
      rw [if_pos hlt, walk, hnode, Option.bind_eq_bind, Option.bind_some, hrest,
        List.drop_eq_getElem_cons hlt]
      rfl
    · rw [if_neg hlt, List.drop_eq_nil_of_le (by omega)]
      rfl

theorem toList_ofList (as : List α) : (ofList as).toList = some as := by
  have hwalk := walk_ofList as (Nat.zero_le _) (show as.length - 0 ≤ as.length by omega)
  rw [toList, length_nodes_ofList]
  cases as with
  | nil => rfl
  | cons a as => exact hwalk

end Chain
