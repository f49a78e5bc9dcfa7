import Mathlib.Tactic

/-! First-in-first-out queues in which some of the messages are numbered. A sender
numbers them one after the other; as long as none of the numbered ones is lost, the
receiver gets the next number each time, whatever else is lost. Whatever is lost, the receiver
deals with different messages, in the order in which they were sent. -/

namespace Queue

variable {α : Type*} (num : α → Option ℕ)

/-- The numbers in the queue are, in order, those from `k` on and below `m`. -/
def Consecutive (k m : ℕ) (q : List α) : Prop :=
  k ≤ m ∧ q.filterMap num = List.range' k (m - k)

variable {num} {k m : ℕ} {q : List α}

theorem Consecutive.nil (k : ℕ) : Consecutive num k k [] := ⟨le_rfl, by simp⟩

/-- Sending messages without a number. -/
theorem Consecutive.append (h : Consecutive num k m q) {as : List α}
    (has : ∀ a ∈ as, num a = none) : Consecutive num k m (q ++ as) := by
  refine ⟨h.1, ?_⟩
  rw [List.filterMap_append, h.2, List.filterMap_eq_nil_iff.mpr has, List.append_nil]

/-- Sending the next numbered message. -/
theorem Consecutive.push (h : Consecutive num k m q) {a : α} (ha : num a = some m) :
    Consecutive num k (m + 1) (q ++ [a]) := by
  obtain ⟨hle, hq⟩ := h
  have hone : [a].filterMap num = [k + (m - k)] := by simp [ha, hle]
  refine ⟨by omega, ?_⟩
  rw [List.filterMap_append, hq, hone, show m + 1 - k = m - k + 1 by omega, List.range'_concat]
  simp

/-- Receiving a message without a number. -/
theorem Consecutive.tail {a : α} (h : Consecutive num k m (a :: q)) (ha : num a = none) :
    Consecutive num k m q :=
  ⟨h.1, by rw [← h.2, List.filterMap_cons_none ha]⟩

/-- Receiving a numbered message: it has the next number. -/
theorem Consecutive.next {a : α} {n : ℕ} (h : Consecutive num k m (a :: q))
    (ha : num a = some n) : n = k ∧ Consecutive num (k + 1) m q := by
  obtain ⟨hle, hq⟩ := h
  rw [List.filterMap_cons_some ha] at hq
  obtain ⟨d, hd⟩ : ∃ d, m - k = d + 1 := by
    refine Nat.exists_eq_succ_of_ne_zero fun h0 => ?_
    rw [h0] at hq
    cases hq
  rw [hd, List.range'_succ, List.cons.injEq] at hq
  refine ⟨hq.1, by omega, ?_⟩
  rw [hq.2]
  congr 1
  omega

/-- Losing a message without a number, wherever it is. -/
theorem Consecutive.eraseIdx (h : Consecutive num k m q) {i : ℕ}
    (hi : ∀ a, q[i]? = some a → num a = none) : Consecutive num k m (q.eraseIdx i) := by
  refine ⟨h.1, ?_⟩
  rw [← h.2]
  rcases lt_or_ge i q.length with hlt | hge
  · have hnone := hi q[i] (List.getElem?_eq_getElem hlt)
    have hsplit : q = q.take i ++ q[i] :: q.drop (i + 1) := by simp
    rw [List.eraseIdx_eq_take_drop_succ]
    conv_rhs => rw [hsplit]
    rw [List.filterMap_append, List.filterMap_append, List.filterMap_cons_none hnone]
  · rw [List.eraseIdx_of_length_le hge]

/-! ## What the receiver deals with -/

variable {β γ : Type*} {R : α → β → Prop} {S : γ → β → Prop} {served : List γ} {sent : List β}

/-- What was served, by `S`, and what is queued, by `R`, goes back to different messages that
were sent, in their order. -/
def Accounted (R : α → β → Prop) (S : γ → β → Prop) (q : List α) (served : List γ)
    (sent : List β) : Prop :=
  ∃ asked pending, List.Forall₂ S served asked ∧ List.Forall₂ R q pending ∧
    (asked ++ pending).Sublist sent

theorem Accounted.nil (R : α → β → Prop) (S : γ → β → Prop) : Accounted R S [] [] [] :=
  ⟨[], [], .nil, .nil, List.Sublist.refl _⟩

theorem Accounted.push (h : Accounted R S q served sent) {a : α} {b : β} (hab : R a b) :
    Accounted R S (q ++ [a]) served (sent ++ [b]) := by
  obtain ⟨asked, pending, hserved, hq, hsub⟩ := h
  refine ⟨asked, pending ++ [b], hserved, List.rel_append hq (.cons hab .nil), ?_⟩
  rw [← List.append_assoc]
  exact hsub.append (List.Sublist.refl [b])

theorem Accounted.drop {a : α} (h : Accounted R S (a :: q) served sent) :
    Accounted R S q served sent := by
  obtain ⟨asked, _, hserved, hq, hsub⟩ := h
  cases hq with
  | cons hab hq =>
    exact ⟨asked, _, hserved, hq, ((List.sublist_cons_self _ _).append_left asked).trans hsub⟩

theorem Accounted.serve {a : α} {c : γ} (h : Accounted R S (a :: q) served sent)
    (hc : ∀ b, R a b → S c b) : Accounted R S q (served ++ [c]) sent := by
  obtain ⟨asked, _, hserved, hq, hsub⟩ := h
  cases hq with
  | @cons _ b _ pending hab hq =>
    refine ⟨asked ++ [b], pending, List.rel_append hserved (.cons (hc b hab) .nil), hq, ?_⟩
    rwa [List.append_assoc]

theorem forall₂_eraseIdx {bs : List β} (h : List.Forall₂ R q bs) (i : ℕ) :
    List.Forall₂ R (q.eraseIdx i) (bs.eraseIdx i) := by
  induction h generalizing i with
  | nil => exact .nil
  | cons hab hq ih =>
    cases i with
    | zero => exact hq
    | succ i => exact .cons hab (ih i)

theorem Accounted.eraseIdx (h : Accounted R S q served sent) (i : ℕ) :
    Accounted R S (q.eraseIdx i) served sent := by
  obtain ⟨asked, pending, hserved, hq, hsub⟩ := h
  exact ⟨asked, pending.eraseIdx i, hserved, forall₂_eraseIdx hq i,
    ((List.eraseIdx_sublist pending i).append_left asked).trans hsub⟩

theorem Accounted.sublistForall₂ (h : Accounted R S q served sent) :
    List.SublistForall₂ S served sent := by
  obtain ⟨asked, pending, hserved, -, hsub⟩ := h
  exact List.sublistForall₂_iff.mpr ⟨asked, hserved, (List.sublist_append_left _ _).trans hsub⟩

end Queue
