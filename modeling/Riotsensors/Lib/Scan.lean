import Riotsensors.Lib.Runs
import Mathlib.Data.List.Pairwise
import Mathlib.Tactic.Cases

/-! A loop over the slots of a table that others change while it runs. An entry is looked up in one
step and printed in the next one; in between it may be gone. -/

/-- What the loop does with a table: it goes up to `bound`, passes over the entries that it does
not keep, and prints the others. -/
structure Loop (τ α β : Type*) where
  bound : τ → ℕ
  slot : τ → ℕ → Option α
  keep : α → Bool
  print : τ → α → Option β

namespace Loop

inductive Cursor (α : Type*) where
  | before (i : ℕ)
  | found (i : ℕ) (a : α)
  | ended
  /-- An entry was gone, or not to be printed. -/
  | failed

structure State (τ α β : Type*) where
  table : τ
  cursor : Cursor α
  out : List (ℕ × α × β)

inductive Event (ε : Type*) where
  | change (e : ε)
  | next

variable {τ α β ε : Type*}

def start (t : τ) : State τ α β := ⟨t, .before 0, []⟩

def next (L : Loop τ α β) (s : State τ α β) : State τ α β :=
  match s.cursor with
  | .before i =>
    if i < L.bound s.table then
      match L.slot s.table i with
      | none => { s with cursor := .before (i + 1) }
      | some a => { s with cursor := .found i a }
    else { s with cursor := .ended }
  | .found i a =>
    if L.slot s.table i = none then { s with cursor := .failed }
    else if L.keep a then
      match L.print s.table a with
      | none => { s with cursor := .failed }
      | some b => { s with cursor := .before (i + 1), out := s.out ++ [(i, a, b)] }
    else { s with cursor := .before (i + 1) }
  | _ => s

def step (L : Loop τ α β) (change : τ → ε → τ) (s : State τ α β) : Event ε → State τ α β
  | .change e => { s with table := change s.table e }
  | .next => L.next s

/-- Entries come in at the bound only, and go; none is replaced. -/
structure Stable (L : Loop τ α β) (change : τ → ε → τ) (Inv : τ → Prop) : Prop where
  inv : ∀ t e, Inv t → Inv (change t e)
  bound : ∀ t e, Inv t → L.bound t ≤ L.bound (change t e)
  slot : ∀ t e i, Inv t → i < L.bound t →
    L.slot (change t e) i = none ∨ L.slot (change t e) i = L.slot t i
  live : ∀ t i a, Inv t → L.slot t i = some a → i < L.bound t

variable {L : Loop τ α β} {change : τ → ε → τ} {Inv : τ → Prop} {s : State τ α β}

/-! ## One step of the loop -/

/-- What a step of the loop does. -/
theorem next_cases (L : Loop τ α β) (s : State τ α β) :
    (∃ i, s.cursor = .before i ∧ ((L.bound s.table ≤ i ∧ L.next s = { s with cursor := .ended }) ∨
      (i < L.bound s.table ∧ L.slot s.table i = none ∧
        L.next s = { s with cursor := .before (i + 1) }) ∨
      ∃ a, i < L.bound s.table ∧ L.slot s.table i = some a ∧
        L.next s = { s with cursor := .found i a })) ∨
    (∃ i a, s.cursor = .found i a ∧
      (((L.slot s.table i = none ∨ (L.keep a = true ∧ L.print s.table a = none)) ∧
        L.next s = { s with cursor := .failed }) ∨
      (L.keep a = false ∧ L.next s = { s with cursor := .before (i + 1) }) ∨
      ∃ b, L.slot s.table i ≠ none ∧ L.keep a = true ∧ L.print s.table a = some b ∧
        L.next s = { s with cursor := .before (i + 1), out := s.out ++ [(i, a, b)] })) ∨
    ((s.cursor = .ended ∨ s.cursor = .failed) ∧ L.next s = s) := by
  cases hcursor : s.cursor with
  | before i =>
    refine .inl ⟨i, rfl, ?_⟩
    simp only [next, hcursor]
    by_cases hi : i < L.bound s.table
    · rw [if_pos hi]
      cases hslot : L.slot s.table i with
      | none => exact .inr (.inl ⟨hi, rfl, rfl⟩)
      | some a => exact .inr (.inr ⟨a, hi, rfl, rfl⟩)
    · rw [if_neg hi]
      exact .inl ⟨not_lt.mp hi, rfl⟩
  | found i a =>
    refine .inr (.inl ⟨i, a, rfl, ?_⟩)
    simp only [next, hcursor]
    by_cases hgone : L.slot s.table i = none
    · rw [if_pos hgone]
      exact .inl ⟨.inl hgone, rfl⟩
    · rw [if_neg hgone]
      cases hkeep : L.keep a with
      | false => exact .inr (.inl ⟨rfl, rfl⟩)
      | true =>
        cases hprint : L.print s.table a with
        | none => exact .inl ⟨.inr ⟨rfl, rfl⟩, rfl⟩
        | some b => exact .inr (.inr ⟨b, hgone, rfl, rfl, rfl⟩)
  | ended => exact .inr (.inr ⟨.inl rfl, by simp only [next, hcursor]⟩)
  | failed => exact .inr (.inr ⟨.inr rfl, by simp only [next, hcursor]⟩)

/-! ## Whole runs -/

/-- Before which slots the loop stands, or whether it has passed all of them. -/
def Cursor.Passed : Cursor α → ℕ → Prop
  | .before p, i | .found p _, i => i < p
  | .ended, _ => True
  | .failed, _ => False

/-- The state of a loop that met the table `t₀` at its start. -/
structure Holds (L : Loop τ α β) (Inv : τ → Prop) (t₀ : τ) (s : State τ α β) : Prop where
  inv : Inv s.table
  bound : L.bound t₀ ≤ L.bound s.table
  before : ∀ i, s.cursor = .before i → i ≤ L.bound s.table
  found : ∀ i a, s.cursor = .found i a →
    i < L.bound s.table ∧ (L.slot s.table i = none ∨ L.slot s.table i = some a)
  sorted : (s.out.map Prod.fst).Pairwise (· < ·)
  printed : ∀ x ∈ s.out, s.cursor = .failed ∨ s.cursor.Passed x.1
  covers : ∀ i a, s.cursor.Passed i → L.slot t₀ i = some a → L.slot s.table i = some a →
    L.keep a = true → ∃ b, (i, a, b) ∈ s.out

variable {t₀ : τ}

theorem Holds.start (h : Inv t₀) : Holds L Inv t₀ (start t₀) where
  inv := h
  bound := le_rfl
  before i hcursor := by
    cases hcursor
    exact Nat.zero_le _
  found _ _ hcursor := by cases hcursor
  sorted := List.Pairwise.nil
  printed _ hx := by cases hx
  covers i _ hpassed := absurd hpassed (Nat.not_lt_zero i)

theorem Holds.changed (hL : L.Stable change Inv) (h₀ : Inv t₀) (h : Holds L Inv t₀ s) (e : ε) :
    Holds L Inv t₀ { s with table := change s.table e } where
  inv := hL.inv _ e h.inv
  bound := h.bound.trans (hL.bound _ e h.inv)
  before i hcursor := (h.before i hcursor).trans (hL.bound _ e h.inv)
  found i a hcursor := by
    obtain ⟨hi, hslot⟩ := h.found i a hcursor
    refine ⟨hi.trans_le (hL.bound _ e h.inv), ?_⟩
    rcases hL.slot s.table e i h.inv hi with hnone | hsame
    · exact .inl hnone
    · rw [hsame]
      exact hslot
  sorted := h.sorted
  printed := h.printed
  covers i a hpassed h0 hnow hkeep := by
    have hi := (hL.live t₀ i a h₀ h0).trans_le h.bound
    rcases hL.slot s.table e i h.inv hi with hnone | hsame
    · cases hnone.symm.trans hnow
    · exact h.covers i a hpassed h0 (hsame.symm.trans hnow) hkeep

/-- The loop goes on to the next slot, whose entry it passed over. -/
theorem Holds.skip (h : Holds L Inv t₀ s) {i : ℕ} (hi : i < L.bound s.table)
    (hbefore : ∀ j, s.cursor.Passed j ↔ j < i) (hfailed : s.cursor ≠ .failed)
    (hskip : ∀ a, L.slot s.table i = some a → L.keep a = false) :
    Holds L Inv t₀ { s with cursor := .before (i + 1) } where
  inv := h.inv
  bound := h.bound
  before j hcursor := by
    cases hcursor
    exact hi
  found _ _ hcursor := by cases hcursor
  sorted := h.sorted
  printed x hx := .inr (Nat.lt_succ_of_lt
    ((hbefore x.1).mp ((h.printed x hx).resolve_left hfailed)))
  covers j a hpassed h0 hnow hkeep := by
    rcases Nat.lt_succ_iff_lt_or_eq.mp hpassed with hlt | rfl
    · exact h.covers j a ((hbefore j).mpr hlt) h0 hnow hkeep
    · rw [hskip a hnow] at hkeep
      cases hkeep

/-- The loop has printed the entry it had found. -/
theorem Holds.print (h : Holds L Inv t₀ s) {i : ℕ} {a : α} (hcursor : s.cursor = .found i a)
    (hgone : L.slot s.table i ≠ none) (b : β) :
    Holds L Inv t₀ { s with cursor := .before (i + 1), out := s.out ++ [(i, a, b)] } where
  inv := h.inv
  bound := h.bound
  before j hnext := by
    cases hnext
    exact (h.found i a hcursor).1
  found _ _ hcursor := by cases hcursor
  sorted := by
    rw [List.map_append, List.pairwise_append]
    refine ⟨h.sorted, List.pairwise_singleton _ _, fun j hj k hk => ?_⟩
    obtain rfl := List.mem_singleton.mp hk
    obtain ⟨x, hx, rfl⟩ := List.mem_map.mp hj
    have hprinted := h.printed x hx
    rw [hcursor] at hprinted
    exact hprinted.resolve_left fun hfailed => by cases hfailed
  printed x hx := by
    right
    rcases List.mem_append.mp hx with hold | hnew
    · have hprinted := h.printed x hold
      rw [hcursor] at hprinted
      exact Nat.lt_succ_of_lt (hprinted.resolve_left fun hfailed => by cases hfailed)
    · obtain rfl := List.mem_singleton.mp hnew
      exact Nat.lt_succ_self i
  covers j c hpassed h0 hnow hkeep := by
    rcases Nat.lt_succ_iff_lt_or_eq.mp hpassed with hlt | rfl
    · obtain ⟨d, hd⟩ := h.covers j c (by rw [hcursor]; exact hlt) h0 hnow hkeep
      exact ⟨d, List.mem_append_left _ hd⟩
    · obtain rfl : a = c :=
        Option.some.inj ((((h.found j a hcursor).2.resolve_left hgone)).symm.trans hnow)
      exact ⟨b, List.mem_append_right _ (List.mem_singleton_self _)⟩

theorem Holds.next (hL : L.Stable change Inv) (h₀ : Inv t₀) (h : Holds L Inv t₀ s) :
    Holds L Inv t₀ (L.next s) := by
  rcases next_cases L s with ⟨i, hcursor, hstep⟩ | ⟨i, a, hcursor, hstep⟩ | ⟨-, hstep⟩
  · have hbefore : ∀ j, s.cursor.Passed j ↔ j < i := fun j => by rw [hcursor]; exact Iff.rfl
    have hrunning : s.cursor ≠ .failed := fun hfailed => by cases hcursor.symm.trans hfailed
    rcases hstep with ⟨hend, hnext⟩ | ⟨hi, hvacant, hnext⟩ | ⟨a, hi, hslot, hnext⟩
    · -- everything that is left of the start lies below the bound
      rw [hnext]
      refine ⟨h.inv, h.bound, fun _ hnext => ?_, fun _ _ hnext => ?_, h.sorted,
        fun _ _ => .inr trivial, fun j a _ h0 hnow hkeep => ?_⟩
      · cases hnext
      · cases hnext
      · have hj := (hL.live t₀ j a h₀ h0).trans_le h.bound
        exact h.covers j a ((hbefore j).mpr (hj.trans_le hend)) h0 hnow hkeep
    · rw [hnext]
      refine h.skip hi hbefore hrunning fun a hslot => ?_
      cases hvacant.symm.trans hslot
    · rw [hnext]
      refine ⟨h.inv, h.bound, fun _ hfound => ?_, fun j c hfound => ?_, h.sorted,
        fun x hx => ?_, fun j c hpassed => h.covers j c ((hbefore j).mpr hpassed)⟩
      · cases hfound
      · obtain ⟨rfl, rfl⟩ : i = j ∧ a = c := by simpa using hfound
        exact ⟨hi, .inr hslot⟩
      · exact .inr ((hbefore x.1).mp ((h.printed x hx).resolve_left hrunning))
  · have hbefore : ∀ j, s.cursor.Passed j ↔ j < i := fun j => by rw [hcursor]; exact Iff.rfl
    have hrunning : s.cursor ≠ .failed := fun hfailed => by cases hcursor.symm.trans hfailed
    rcases hstep with ⟨-, hnext⟩ | ⟨hkeep, hnext⟩ | ⟨b, hgone, -, -, hnext⟩
    · rw [hnext]
      refine ⟨h.inv, h.bound, fun _ hnext => ?_, fun _ _ hnext => ?_, h.sorted,
        fun _ _ => .inl rfl, fun _ _ hpassed => hpassed.elim⟩
      · cases hnext
      · cases hnext
    · rw [hnext]
      refine h.skip (h.found i a hcursor).1 hbefore hrunning fun c hslot => ?_
      rcases (h.found i a hcursor).2 with hnone | hsame
      · cases hnone.symm.trans hslot
      · obtain rfl := Option.some.inj (hsame.symm.trans hslot)
        exact hkeep
    · rw [hnext]
      exact h.print hcursor hgone b
  · rw [hstep]
    exact h

theorem Holds.run (hL : L.Stable change Inv) (h₀ : Inv t₀) (es : List (Event ε)) :
    Holds L Inv t₀ (Runs.run (L.step change) (Loop.start t₀) es) := by
  refine Runs.run_inv_all (fun s e h => ?_) es (Holds.start h₀)
  cases e with
  | change e => exact h.changed hL h₀ e
  | next => exact h.next hL h₀

/-! ## What was printed, and when -/

/-- What is printed is printed in some state that the run passes through. -/
theorem printed_along (es : List (Event ε)) {x : ℕ × α × β}
    (hx : x ∈ (Runs.run (L.step change) s es).out) :
    x ∈ s.out ∨ ∃ pre, pre <+: es ∧
      let s' := Runs.run (L.step change) s pre
      s'.cursor = .found x.1 x.2.1 ∧ L.slot s'.table x.1 ≠ none ∧ L.keep x.2.1 = true ∧
        L.print s'.table x.2.1 = some x.2.2 := by
  induction es generalizing s with
  | nil => exact .inl hx
  | cons e es ih =>
    rcases ih hx with hold | ⟨pre, hpre, hthen⟩
    · cases e with
      | change e => exact .inl hold
      | next =>
        rcases next_cases L s with ⟨i, -, hstep⟩ | ⟨i, a, hcursor, hstep⟩ | ⟨-, hstep⟩
        · rcases hstep with ⟨-, hnext⟩ | ⟨-, -, hnext⟩ | ⟨a, -, -, hnext⟩ <;>
            exact .inl (by rwa [step, hnext] at hold)
        · rcases hstep with ⟨-, hnext⟩ | ⟨-, hnext⟩ | ⟨b, hgone, hkeep, hprint, hnext⟩
          · exact .inl (by rwa [step, hnext] at hold)
          · exact .inl (by rwa [step, hnext] at hold)
          · rw [step, hnext] at hold
            rcases List.mem_append.mp hold with hbefore | hnew
            · exact .inl hbefore
            · obtain rfl := List.mem_singleton.mp hnew
              exact .inr ⟨[], List.nil_prefix, hcursor, hgone, hkeep, hprint⟩
        · exact .inl (by rwa [step, hstep] at hold)
    · exact .inr ⟨e :: pre, List.cons_prefix_cons.mpr ⟨rfl, hpre⟩, hthen⟩

/-- The loop fails only at an entry that is gone, or that is not to be printed. -/
theorem failed_along (es : List (Event ε))
    (hfailed : (Runs.run (L.step change) s es).cursor = .failed) :
    s.cursor = .failed ∨ ∃ pre i a, pre <+: es ∧
      let s' := Runs.run (L.step change) s pre
      s'.cursor = .found i a ∧
        (L.slot s'.table i = none ∨ (L.keep a = true ∧ L.print s'.table a = none)) := by
  induction es generalizing s with
  | nil => exact .inl hfailed
  | cons e es ih =>
    rcases ih hfailed with hnow | ⟨pre, i, a, hpre, hthen⟩
    · cases e with
      | change e => exact .inl hnow
      | next =>
        rcases next_cases L s with ⟨i, -, hstep⟩ | ⟨i, a, hcursor, hstep⟩ | ⟨-, hstep⟩
        · rcases hstep with ⟨-, hnext⟩ | ⟨-, -, hnext⟩ | ⟨a, -, -, hnext⟩ <;>
            (rw [step, hnext] at hnow; cases hnow)
        · rcases hstep with ⟨hwhy, -⟩ | ⟨-, hnext⟩ | ⟨b, -, -, -, hnext⟩
          · exact .inr ⟨[], i, a, List.nil_prefix, hcursor, hwhy⟩
          · rw [step, hnext] at hnow
            cases hnow
          · rw [step, hnext] at hnow
            cases hnow
        · exact .inl (by rwa [step, hstep] at hnow)
    · exact .inr ⟨e :: pre, i, a, List.cons_prefix_cons.mpr ⟨rfl, hpre⟩, hthen⟩

/-! ## The end -/

/-- How many steps the loop has taken at least. -/
def Cursor.rank : Cursor α → ℕ
  | .before i => 2 * i
  | .found i _ => 2 * i + 1
  | _ => 0

def Cursor.Over : Cursor α → Prop
  | .ended | .failed => True
  | _ => False

theorem over_next (h : s.cursor.Over) : L.next s = s := by
  rcases next_cases L s with ⟨i, hcursor, -⟩ | ⟨i, a, hcursor, -⟩ | ⟨-, hstep⟩
  · rw [hcursor] at h
    exact h.elim
  · rw [hcursor] at h
    exact h.elim
  · exact hstep

theorem over_run (h : s.cursor.Over) (es : List (Event ε)) :
    (Runs.run (L.step change) s es).cursor.Over := by
  have hkeep : ∀ (s : State τ α β) (e : Event ε), s.cursor.Over →
      (L.step change s e).cursor.Over := by
    intro s e h
    cases e with
    | change e => exact h
    | next => rwa [step, over_next h]
  exact Runs.run_inv_all hkeep es h

/-- Each step of the loop brings it closer to its end. -/
theorem rank_next (s : State τ α β) :
    (L.next s).cursor.Over ∨ s.cursor.rank < (L.next s).cursor.rank := by
  rcases next_cases L s with ⟨i, hcursor, hstep⟩ | ⟨i, a, hcursor, hstep⟩ | ⟨hover, hstep⟩
  · rw [hcursor]
    rcases hstep with ⟨-, hnext⟩ | ⟨-, -, hnext⟩ | ⟨a, -, -, hnext⟩ <;> rw [hnext]
    · exact .inl trivial
    · exact .inr (by simp only [Cursor.rank]; omega)
    · exact .inr (by simp only [Cursor.rank]; omega)
  · rw [hcursor]
    rcases hstep with ⟨-, hnext⟩ | ⟨-, hnext⟩ | ⟨b, -, -, -, hnext⟩ <;> rw [hnext]
    · exact .inl trivial
    · exact .inr (by simp only [Cursor.rank]; omega)
    · exact .inr (by simp only [Cursor.rank]; omega)
  · left
    rw [hstep]
    rcases hover with hended | hfailed
    · rw [hended]
      trivial
    · rw [hfailed]
      trivial

def isNext : Event ε → Bool
  | .next => true
  | .change _ => false

theorem rank_run (s : State τ α β) (es : List (Event ε)) :
    (Runs.run (L.step change) s es).cursor.Over ∨
      s.cursor.rank + es.countP isNext ≤ (Runs.run (L.step change) s es).cursor.rank := by
  induction es generalizing s with
  | nil => exact .inr le_rfl
  | cons e es ih =>
    cases e with
    | change e => exact ih _
    | next =>
      rcases rank_next (L := L) s with hover | hrank
      · exact .inl (over_run hover es)
      · rcases ih (L.next s) with hover | hrest
        · exact .inl hover
        · refine .inr (le_trans ?_ hrest)
          rw [List.countP_cons_of_pos (by rfl)]
          omega

/-- Where no table goes beyond `n` slots, `2 * n + 1` steps end the loop. -/
theorem over_of_steps (hL : L.Stable change Inv) (h₀ : Inv t₀) {n : ℕ}
    (hn : ∀ t, Inv t → L.bound t ≤ n) {es : List (Event ε)} (hes : 2 * n < es.countP isNext) :
    (Runs.run (L.step change) (start t₀) es).cursor.Over := by
  have hholds := Holds.run hL h₀ es
  have hrun : (Runs.run (L.step change) (start t₀) es).cursor.Over ∨
      (start t₀ : State τ α β).cursor.rank + es.countP isNext ≤
        (Runs.run (L.step change) (start t₀) es).cursor.rank := rank_run (start t₀) es
  rcases hrun with hover | hrank
  · exact hover
  · have hbound := hn _ hholds.inv
    have hstart : (start t₀ : State τ α β).cursor.rank = 0 := rfl
    rw [hstart, Nat.zero_add] at hrank
    cases hcursor : (Runs.run (L.step change) (start t₀) es).cursor with
    | before i =>
      have hi := hholds.before i hcursor
      rw [hcursor, Cursor.rank] at hrank
      omega
    | found i a =>
      have hi := (hholds.found i a hcursor).1
      rw [hcursor, Cursor.rank] at hrank
      omega
    | ended => trivial
    | failed => trivial

end Loop
