import Mathlib.Tactic

/-! A numbered directory: keys are entered under the next free number, a number
is never given out twice, and a withdrawn number stays empty. This is the map that
a registry with a running counter implements. -/

/-- Entry `i` is the key and value entered under number `i`, until it is withdrawn. -/
structure Directory (κ ν : Type*) where
  entries : List (Option (κ × ν))

namespace Directory

variable {κ ν : Type*}

/-- What stands under a number. -/
def look (d : Directory κ ν) (i : ℕ) : Option (κ × ν) := d.entries[i]?.join

/-- The next free number. -/
def next (d : Directory κ ν) : ℕ := d.entries.length

def empty : Directory κ ν := ⟨[]⟩

def enter (d : Directory κ ν) (k : κ) (v : ν) : Directory κ ν := ⟨d.entries ++ [some (k, v)]⟩

def withdraw (d : Directory κ ν) (i : ℕ) : Directory κ ν := ⟨d.entries.set i none⟩

/-- Withdraws every entry; the numbers stay used. -/
def withdrawAll (d : Directory κ ν) : Directory κ ν := ⟨List.replicate d.next none⟩

/-- The key is entered under some number. -/
def Has (d : Directory κ ν) (k : κ) : Prop := ∃ i v, d.look i = some (k, v)

/-- No key stands under two numbers. -/
def Distinct (d : Directory κ ν) : Prop :=
  ∀ i j k v w, d.look i = some (k, v) → d.look j = some (k, w) → i = j

theorem look_of_le {d : Directory κ ν} {i : ℕ} (h : d.next ≤ i) : d.look i = none := by
  rw [look, List.getElem?_eq_none h, Option.join_none]

/-- Two directories are equal when they gave out the same numbers and agree on them. -/
theorem ext_look {d e : Directory κ ν} (hn : d.next = e.next)
    (h : ∀ i < d.next, d.look i = e.look i) : d = e := by
  rcases d with ⟨d⟩
  rcases e with ⟨e⟩
  congr
  apply List.ext_getElem hn
  intro i hd he
  have hi := h i hd
  simpa [look, List.getElem?_eq_getElem hd, List.getElem?_eq_getElem he] using hi

@[simp] theorem next_enter (d : Directory κ ν) (k : κ) (v : ν) :
    (d.enter k v).next = d.next + 1 := by
  simp [next, enter]

theorem look_enter (d : Directory κ ν) (k : κ) (v : ν) (i : ℕ) :
    (d.enter k v).look i = if i = d.next then some (k, v) else d.look i := by
  unfold look enter
  split_ifs with h
  · rw [h, next, List.getElem?_concat_length, Option.join_some]
  · rcases Nat.lt_or_gt_of_ne h with hlt | hgt
    · rw [List.getElem?_append_left hlt]
    · have hlen : (d.entries ++ [some (k, v)]).length ≤ i := by
        simp only [List.length_append, List.length_singleton]
        exact hgt
      rw [List.getElem?_eq_none hlen, List.getElem?_eq_none (le_of_lt hgt)]

@[simp] theorem next_withdraw (d : Directory κ ν) (i : ℕ) : (d.withdraw i).next = d.next := by
  simp [next, withdraw]

theorem look_withdraw (d : Directory κ ν) (i j : ℕ) :
    (d.withdraw i).look j = if j = i then none else d.look j := by
  simp only [look, withdraw]
  split_ifs with h
  · rw [h, List.getElem?_set_self']
    cases d.entries[i]? <;> rfl
  · rw [List.getElem?_set_ne (Ne.symm h)]

@[simp] theorem next_withdrawAll (d : Directory κ ν) : d.withdrawAll.next = d.next := by
  simp [next, withdrawAll]

@[simp] theorem look_withdrawAll (d : Directory κ ν) (i : ℕ) : d.withdrawAll.look i = none := by
  simp only [look, withdrawAll, List.getElem?_replicate]
  split_ifs <;> rfl

theorem distinct_empty : (empty : Directory κ ν).Distinct := by
  intro i j k v w hi
  cases hi

theorem Distinct.enter {d : Directory κ ν} (h : d.Distinct) {k : κ} (hk : ¬ d.Has k) (v : ν) :
    (d.enter k v).Distinct := by
  intro i j l u w hi hj
  rw [look_enter] at hi hj
  split_ifs at hi hj with hin hjn hjn
  · rw [hin, hjn]
  · obtain ⟨rfl, -⟩ := Prod.mk.inj (Option.some.inj hi)
    exact absurd ⟨j, w, hj⟩ hk
  · obtain ⟨rfl, -⟩ := Prod.mk.inj (Option.some.inj hj)
    exact absurd ⟨i, u, hi⟩ hk
  · exact h i j l u w hi hj

/-- Whatever only takes entries away keeps the keys distinct. -/
theorem Distinct.anti {d e : Directory κ ν} (h : d.Distinct)
    (hsub : ∀ i x, e.look i = some x → d.look i = some x) : e.Distinct :=
  fun i j k v w hi hj => h i j k v w (hsub i _ hi) (hsub j _ hj)

theorem Distinct.withdraw {d : Directory κ ν} (h : d.Distinct) (i : ℕ) :
    (d.withdraw i).Distinct := by
  refine h.anti fun j x hj => ?_
  rw [look_withdraw] at hj
  split_ifs at hj
  exact hj

theorem distinct_withdrawAll (d : Directory κ ν) : d.withdrawAll.Distinct := by
  intro i j k v w hi
  rw [look_withdrawAll] at hi
  cases hi

end Directory
