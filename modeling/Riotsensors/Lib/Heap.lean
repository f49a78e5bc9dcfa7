import Mathlib.Data.Finset.Card
import Mathlib.Data.Finset.Range
import Mathlib.Tactic

/-! A heap of blocks. Addresses are given out in order and never twice, and freeing what is
not a live block fails. -/

/-- The blocks by their addresses, and the next address. -/
structure Heap (β : Type*) where
  block : ℕ → Option β
  next : ℕ
  fresh : ∀ p, next ≤ p → block p = none

namespace Heap

variable {β : Type*}

def empty : Heap β := ⟨fun _ => none, 0, fun _ _ => rfl⟩

/-- A new block, at the address `h.next`. -/
def alloc (h : Heap β) (b : β) : Heap β where
  block := Function.update h.block h.next (some b)
  next := h.next + 1
  fresh p hp := by
    rw [Function.update_of_ne (Nat.ne_of_gt hp)]
    exact h.fresh p (Nat.le_of_succ_le hp)

def erase (h : Heap β) (p : ℕ) : Heap β where
  block := Function.update h.block p none
  next := h.next
  fresh q hq := by
    by_cases hp : q = p
    · rw [hp, Function.update_self]
    · rw [Function.update_of_ne hp]
      exact h.fresh q hq

def free (h : Heap β) (p : ℕ) : Option (Heap β) :=
  if (h.block p).isSome then some (h.erase p) else none

/-- `NULL` may be freed. -/
def freeAt (h : Heap β) : Option ℕ → Option (Heap β)
  | none => some h
  | some p => h.free p

/-- New contents for a live block. -/
def store (h : Heap β) (p : ℕ) (b : β) : Option (Heap β) :=
  if hp : (h.block p).isSome then
    some { h with
      block := Function.update h.block p (some b)
      fresh := fun q hq => by
        have hne : q ≠ p := by
          rintro rfl
          rw [h.fresh q hq] at hp
          cases hp
        rw [Function.update_of_ne hne]
        exact h.fresh q hq }
  else none

/-- The addresses of the live blocks. -/
def live (h : Heap β) : Finset ℕ := (Finset.range h.next).filter fun p => (h.block p).isSome

variable {h : Heap β} {p : ℕ}

theorem lt_next {b : β} (hp : h.block p = some b) : p < h.next := by
  by_contra hge
  rw [h.fresh p (not_lt.mp hge)] at hp
  cases hp

@[simp] theorem block_alloc_self (h : Heap β) (b : β) : (h.alloc b).block h.next = some b :=
  Function.update_self ..

@[simp] theorem next_alloc (h : Heap β) (b : β) : (h.alloc b).next = h.next + 1 := rfl

@[simp] theorem next_erase (h : Heap β) (p : ℕ) : (h.erase p).next = h.next := rfl

theorem block_alloc_of_ne (b : β) (hp : p ≠ h.next) : (h.alloc b).block p = h.block p :=
  Function.update_of_ne hp ..

/-- What is live stays where it is. -/
theorem block_alloc {b : β} (hp : h.block p = some b) (c : β) :
    (h.alloc c).block p = some b := by
  rw [block_alloc_of_ne c (lt_next hp).ne, hp]

@[simp] theorem block_erase_self (h : Heap β) (p : ℕ) : (h.erase p).block p = none :=
  Function.update_self ..

theorem block_erase_of_ne {q : ℕ} (hq : q ≠ p) : (h.erase p).block q = h.block q :=
  Function.update_of_ne hq ..

theorem free_of_live {b : β} (hp : h.block p = some b) : h.free p = some (h.erase p) := by
  rw [free, hp]
  rfl

theorem erase_of_free {h' : Heap β} (hfree : h.free p = some h') :
    h' = h.erase p ∧ ∃ b, h.block p = some b := by
  unfold free at hfree
  split_ifs at hfree with hp
  exact ⟨(Option.some.inj hfree).symm, Option.isSome_iff_exists.mp hp⟩

theorem store_of_live {b : β} (hp : h.block p = some b) (c : β) :
    ∃ h', h.store p c = some h' ∧ h'.next = h.next ∧ h'.block p = some c ∧
      ∀ q, q ≠ p → h'.block q = h.block q := by
  have hsome : (h.block p).isSome = true := by rw [hp]; rfl
  refine ⟨_, dif_pos hsome, rfl, Function.update_self .., fun q hq => Function.update_of_ne hq ..⟩

theorem mem_live : p ∈ h.live ↔ (h.block p).isSome := by
  rw [live, Finset.mem_filter, Finset.mem_range]
  refine ⟨And.right, fun hp => ⟨?_, hp⟩⟩
  obtain ⟨b, hb⟩ := Option.isSome_iff_exists.mp hp
  exact lt_next hb

theorem live_alloc (h : Heap β) (b : β) : (h.alloc b).live = insert h.next h.live := by
  ext p
  rw [Finset.mem_insert, mem_live, mem_live]
  by_cases hp : p = h.next
  · simp [hp]
  · simp [block_alloc_of_ne b hp, hp]

theorem live_erase (h : Heap β) (p : ℕ) : (h.erase p).live = h.live.erase p := by
  ext q
  rw [Finset.mem_erase, mem_live, mem_live]
  by_cases hq : q = p
  · simp [hq]
  · simp [block_erase_of_ne hq, hq]

theorem card_live_alloc (h : Heap β) (b : β) : (h.alloc b).live.card = h.live.card + 1 := by
  rw [live_alloc, Finset.card_insert_of_notMem]
  rw [mem_live, h.fresh h.next le_rfl]
  exact Bool.false_ne_true

theorem card_live_erase {b : β} (hp : h.block p = some b) :
    (h.erase p).live.card + 1 = h.live.card := by
  rw [live_erase]
  exact Finset.card_erase_add_one (mem_live.mpr (by rw [hp]; rfl))

theorem card_live_of_free {h' : Heap β} (hfree : h.free p = some h') :
    h'.live.card < h.live.card := by
  obtain ⟨rfl, b, hb⟩ := erase_of_free hfree
  have hcard := card_live_erase hb
  omega

theorem card_live_of_freeAt {h' : Heap β} {p : Option ℕ} (hfree : h.freeAt p = some h') :
    h'.live.card ≤ h.live.card := by
  cases p with
  | none => exact (congrArg (fun h => h.live.card) (Option.some.inj hfree)).ge
  | some p => exact (card_live_of_free hfree).le

end Heap
