import Riotsensors.Lib.Mutex

/-! Critical sections as single steps. Where the memory is touched with the mutex held only, and
nothing else changes it meanwhile, each run is one in which a thread that takes the mutex does all
it does with it at once. -/

namespace Mutex

namespace Prog

variable {M α β : Type} {held between : Bool}

/-- The memory is accessed with the mutex held only. -/
def Guarded : Prog M α → Bool → Prop
  | ret _, _ => True
  | lock p, _ => p.Guarded true
  | unlock p, _ => p.Guarded false
  | wait p, _ => ∀ timedOut, (p timedOut).Guarded true
  | access _ p, held => held = true ∧ ∀ m, (p m).Guarded held

/-- What a thread that holds the mutex does to the memory until it gives the mutex up, and where
it is then. -/
def critical : Prog M α → M → M × Thread M α
  | ret a, m => (m, .running (ret a))
  | lock p, m => (m, .running (lock p))
  | unlock p, m => (m, .running p)
  | wait p, m => (m, .waiting p)
  | access write p, m => (p m).critical (write m)

/-! ## Rules -/

theorem Guarded.pure (a : α) : (Pure.pure a : Prog M α).Guarded held := trivial

theorem Guarded.seq {p : Prog M α} {f : α → Prog M β} (hp : p.Guarded held)
    (hkeeps : p.Keeps held between) (hf : ∀ a, (f a).Guarded between) :
    (p >>= f).Guarded held := by
  change (p.bind f).Guarded held
  induction p generalizing held with
  | ret a =>
    obtain rfl : held = between := hkeeps
    exact hf a
  | lock p ih => exact ih hp hkeeps.2
  | unlock p ih => exact ih hp hkeeps.2
  | wait p ih => exact fun timedOut => ih timedOut (hp timedOut) (hkeeps.2 timedOut)
  | access write p ih => exact ⟨hp.1, fun m => ih m (hp.2 m) (hkeeps m)⟩

theorem guarded_lock : (Mutex.lock : Prog M Unit).Guarded held := trivial

theorem guarded_unlock : (Mutex.unlock : Prog M Unit).Guarded held := trivial

theorem guarded_timedwait : (timedwait : Prog M Bool).Guarded held := fun _ => trivial

theorem guarded_read (get : M → α) : (read get).Guarded true := ⟨rfl, fun _ => trivial⟩

theorem guarded_write (set : M → M) : (write set).Guarded true := ⟨rfl, fun _ => trivial⟩

section Critical

variable (m : M)

@[simp] theorem critical_pure (a : α) :
    (Pure.pure a : Prog M α).critical m = (m, .running (.ret a)) := rfl

@[simp] theorem critical_unlock_bind (f : Unit → Prog M α) :
    (Mutex.unlock >>= f).critical m = (m, .running (f ())) := rfl

@[simp] theorem critical_timedwait_bind (f : Bool → Prog M α) :
    (timedwait >>= f).critical m = (m, .waiting f) := rfl

@[simp] theorem critical_read_bind (get : M → α) (f : α → Prog M β) :
    (read get >>= f).critical m = (f (get m)).critical m := rfl

@[simp] theorem critical_write_bind (set : M → M) (f : Unit → Prog M β) :
    (write set >>= f).critical m = (f ()).critical (set m) := rfl

@[simp] theorem critical_ite (c : Prop) [Decidable c] (p q : Prog M α) :
    (if c then p else q).critical m = if c then p.critical m else q.critical m := by
  split <;> rfl

/-! A part of a program that leaves the mutex alone, in front of the rest. -/

@[simp] theorem critical_pure_bind (a : α) (f : α → Prog M β) :
    (Pure.pure a >>= f : Prog M β).critical m = (f a).critical m := rfl

@[simp] theorem critical_read_bind_bind {γ : Type} (get : M → α) (f : α → Prog M β)
    (g : β → Prog M γ) :
    ((read get >>= f) >>= g).critical m = (f (get m) >>= g).critical m := rfl

@[simp] theorem critical_ite_bind (c : Prop) [Decidable c] (p q : Prog M α)
    (f : α → Prog M β) :
    ((if c then p else q) >>= f).critical m =
      if c then (p >>= f).critical m else (q >>= f).critical m := by
  split <;> rfl

end Critical

end Prog

/-! ## The pool with single steps -/

/-- The guard of a thread, which holds the mutex or not. -/
def Thread.Guarded {M α : Type} : Thread M α → Bool → Prop
  | .idle, _ => True
  | .running p, held => p.Guarded held
  | .waiting next, _ => ∀ timedOut, (next timedOut).Guarded true
  | .resuming p, _ => p.Guarded true

namespace Pool

variable {M α : Type} {C : Type*} {code : C → Prog M α} {s a : Pool M α} {i : ℕ}

/-- A thread that is about to take the mutex does its whole critical section. -/
def perform (s : Pool M α) (i : ℕ) : Pool M α :=
  match s.threads i with
  | .running (.lock next) | .resuming next =>
    { s with memory := (next.critical s.memory).1 }.setThread i (next.critical s.memory).2
  | _ => s

def serialStep (code : C → Prog M α) (s : Pool M α) : Event M C → Pool M α
  | .memory m => { s with memory := m }
  | .start i c => s.begin code i c
  | .step i => s.perform i
  | .wakeup i timedOut => s.wakeup i timedOut

/-- Every thread accesses the memory under the mutex only. -/
def Guards (s : Pool M α) : Prop := ∀ i, (s.threads i).Guarded (decide (s.holder = some i))

/-- `a` is ahead of `s` by the rest of the critical section of the holder, if there is one. -/
structure Ahead (s a : Pool M α) : Prop where
  free : s.holder = none → a.memory = s.memory ∧ a.threads = s.threads
  held : ∀ i, s.holder = some i → ∃ p, s.threads i = .running p ∧
    p.critical s.memory = (a.memory, a.threads i) ∧ ∀ j, j ≠ i → a.threads j = s.threads j

theorem Guards.of_others (h : s.Guards) {s' : Pool M α}
    (hi : (s'.threads i).Guarded (decide (s'.holder = some i)))
    (hj : ∀ j, j ≠ i → s'.threads j = s.threads j ∧ (s'.holder = some j ↔ s.holder = some j)) :
    s'.Guards := by
  intro j
  by_cases hne : j = i
  · rw [hne]
    exact hi
  · obtain ⟨hthread, hholder⟩ := hj j hne
    rw [hthread, decide_eq_decide.mpr hholder]
    exact h j

theorem Guards.setThread (h : s.Guards) {t : Thread M α}
    (ht : t.Guarded (decide (s.holder = some i))) : (s.setThread i t).Guards := by
  refine h.of_others ?_ fun j hj => ⟨setThread_of_ne hj t, Iff.rfl⟩
  rw [setThread_self]
  exact ht

theorem Guards.taken (h : s.Guards) (hfree : s.holder = none) {next : Prog M α}
    (hnext : next.Guarded true) : (s.taken i next).Guards := by
  have hholder : (s.taken i next).holder = some i := rfl
  refine h.of_others ?_ fun j hj => ⟨setThread_of_ne hj _, ?_⟩
  · rw [hholder, decide_eq_true rfl, Pool.taken, setThread_self]
    exact hnext
  · rw [hholder, hfree]
    exact iff_of_false (fun heq => hj (Option.some.inj heq).symm) fun hnone => by cases hnone

theorem Guards.give (h : s.Guards) (hheld : s.holder = some i) {t : Thread M α}
    (ht : t.Guarded false) : (s.give i t).Guards := by
  have hholder : (s.give i t).holder = none := rfl
  refine h.of_others ?_ fun j hj => ⟨setThread_of_ne hj _, ?_⟩
  · rw [hholder, decide_eq_false (by simp), Pool.give, setThread_self]
    exact ht
  · rw [hholder, hheld]
    exact iff_of_false (fun hnone => by cases hnone) fun heq => hj (Option.some.inj heq).symm

theorem Ahead.threads_of_ne (h : Ahead s a) (hi : s.holder ≠ some i) :
    a.threads i = s.threads i := by
  cases hholder : s.holder with
  | none => rw [(h.free hholder).2]
  | some k =>
    obtain ⟨p, -, -, hothers⟩ := h.held k hholder
    exact hothers i fun heq => hi (heq ▸ hholder)

/-- Another thread than the holder goes on in both. -/
theorem Ahead.setThread (h : Ahead s a) (hi : s.holder ≠ some i) (t : Thread M α) :
    Ahead (s.setThread i t) (a.setThread i t) where
  free hfree := by
    obtain ⟨hmemory, hthreads⟩ := h.free hfree
    refine ⟨hmemory, ?_⟩
    change Function.update a.threads i t = Function.update s.threads i t
    rw [hthreads]
  held k hk := by
    obtain ⟨p, hthread, hcritical, hothers⟩ := h.held k hk
    have hki : k ≠ i := fun heq => hi (heq ▸ hk)
    refine ⟨p, ?_, ?_, fun j hj => ?_⟩
    · rw [setThread_of_ne hki, hthread]
    · rw [setThread_of_ne hki]
      exact hcritical
    · by_cases hji : j = i
      · rw [hji, setThread_self, setThread_self]
      · rw [setThread_of_ne hji, setThread_of_ne hji, hothers j hj]

/-- The mutex is taken: the critical section is done at once. -/
theorem Ahead.taken (h : Ahead s a) (hfree : s.holder = none) {next : Prog M α}
    (hperform : a.perform i = { a with memory := (next.critical a.memory).1 }.setThread i
      (next.critical a.memory).2) : Ahead (s.taken i next) (a.perform i) where
  free hnone := by cases hnone
  held k hk := by
    obtain rfl : i = k := Option.some.inj hk
    obtain ⟨hmemory, hthreads⟩ := h.free hfree
    refine ⟨next, setThread_self _, ?_, fun j hj => ?_⟩
    · rw [hperform, setThread_self, hmemory]
      rfl
    · rw [hperform, setThread_of_ne hj, Pool.taken, setThread_of_ne hj]
      exact congrFun hthreads j

/-- The mutex is given up: the critical section is over in both. -/
theorem Ahead.give (h : Ahead s a) (hheld : s.holder = some i) {p : Prog M α} {t : Thread M α}
    (hthread : s.threads i = .running p) (hover : p.critical s.memory = (s.memory, t)) :
    Ahead (s.give i t) a where
  free _ := by
    obtain ⟨p', hthread', hcritical, hothers⟩ := h.held i hheld
    obtain rfl : p' = p := by simpa using hthread'.symm.trans hthread
    obtain ⟨hmemory, ht⟩ := Prod.mk.inj (hover.symm.trans hcritical)
    refine ⟨hmemory.symm, funext fun j => ?_⟩
    by_cases hj : j = i
    · rw [hj, Pool.give, setThread_self, ht]
    · rw [Pool.give, setThread_of_ne hj]
      exact hothers j hj
  held k hk := by cases hk

/-- One access of the holder. -/
theorem Ahead.access (h : Ahead s a) (hheld : s.holder = some i) {write : M → M}
    {next : M → Prog M α} (hthread : s.threads i = .running (.access write next)) :
    Ahead ({ s with memory := write s.memory }.setThread i (.running (next s.memory))) a where
  free hfree := by cases hheld.symm.trans hfree
  held k hk := by
    obtain rfl : i = k := Option.some.inj (hheld.symm.trans hk)
    obtain ⟨p, hthread', hcritical, hothers⟩ := h.held i hheld
    obtain rfl : p = .access write next := by simpa using hthread'.symm.trans hthread
    refine ⟨next s.memory, setThread_self _, hcritical, fun j hj => ?_⟩
    rw [setThread_of_ne hj]
    exact hothers j hj

/-! ## One step, and whole runs -/

theorem Ahead.begin (h : Ahead s a) (hinv : s.Inv) (hguards : s.Guards)
    (hcode : ∀ c, (code c).Guarded false) (i : ℕ) (c : C) :
    (s.begin code i c).Guards ∧
      (Ahead (s.begin code i c) a ∨ Ahead (s.begin code i c) (a.begin code i c)) := by
  by_cases hout : (s.threads i).Out
  · have hholder := (hinv.free ((hinv.fits i).out hout)).1
    have hsame := h.threads_of_ne hholder
    have hbegin : ∀ s : Pool M α, (s.threads i).Out →
        s.begin code i c = s.setThread i (.running (code c)) := by
      intro s hs
      unfold Pool.begin
      split
      · rfl
      · rfl
      next hidle hret =>
        cases hthread : s.threads i with
        | idle => exact absurd hthread hidle
        | running p =>
          cases p with
          | ret b => exact absurd hthread (hret b)
          | _ =>
            rw [hthread] at hs
            exact hs.elim
        | _ =>
          rw [hthread] at hs
          exact hs.elim
    rw [hbegin s hout, hbegin a (by rwa [hsame])]
    refine ⟨hguards.setThread ?_, .inr (h.setThread hholder _)⟩
    rw [decide_eq_false hholder]
    exact hcode c
  · have hbusy : s.begin code i c = s := by
      unfold Pool.begin
      split
      next hidle =>
        rw [hidle] at hout
        exact absurd trivial hout
      next b hret =>
        rw [hret] at hout
        exact absurd trivial hout
      · rfl
    rw [hbusy]
    exact ⟨hguards, .inl h⟩

theorem Ahead.operate (h : Ahead s a) (hinv : s.Inv) (hguards : s.Guards) (i : ℕ) :
    (s.operate i).Guards ∧ (Ahead (s.operate i) a ∨ Ahead (s.operate i) (a.perform i)) := by
  have hfits := hinv.fits i
  have hguard := hguards i
  have hidle : s.operate i = s →
      (s.operate i).Guards ∧ (Ahead (s.operate i) a ∨ Ahead (s.operate i) (a.perform i)) := by
    intro hsame
    rw [hsame]
    exact ⟨hguards, .inl h⟩
  -- a mutex that is held is not taken, and one that is free is taken in both
  have htakes : ∀ next : Prog M α, s.operate i = s.take i next → next.Guarded true →
      (s.threads i).Takes → (a.threads i = s.threads i → a.perform i =
        { a with memory := (next.critical a.memory).1 }.setThread i (next.critical a.memory).2) →
      (s.operate i).Guards ∧ (Ahead (s.operate i) a ∨ Ahead (s.operate i) (a.perform i)) := by
    intro next hoperate hnext htakes hperform
    have hholder := (hinv.free (hfits.takes htakes)).1
    have hsame := h.threads_of_ne hholder
    cases hfree : s.holder with
    | none =>
      have htaken : s.operate i = s.taken i next := by
        rw [hoperate]
        simp only [take, hfree, Pool.taken]
      rw [htaken]
      exact ⟨hguards.taken hfree hnext, .inr (h.taken hfree (hperform hsame))⟩
    | some k =>
      refine hidle ?_
      rw [hoperate]
      simp only [take, hfree]
  cases hthread : s.threads i with
  | idle => exact hidle (by simp only [Pool.operate, hthread])
  | waiting next => exact hidle (by simp only [Pool.operate, hthread])
  | resuming next =>
    rw [hthread] at hguard
    refine htakes next (by simp only [Pool.operate, hthread]) hguard ?_ fun hsame => ?_
    · rw [hthread]
      trivial
    · simp only [perform, hsame, hthread]
  | running p =>
    rw [hthread] at hguard
    cases p with
    | ret b => exact hidle (by simp only [Pool.operate, hthread])
    | lock next =>
      refine htakes next (by simp only [Pool.operate, hthread]) hguard ?_ fun hsame => ?_
      · rw [hthread]
        trivial
      · simp only [perform, hsame, hthread]
    | unlock next =>
      have hheld : s.holder = some i := by
        refine of_decide_eq_true (hfits.gives ?_)
        rw [hthread]
        trivial
      have hgive : s.operate i = s.give i (.running next) := by simp only [Pool.operate, hthread]
      rw [hgive]
      exact ⟨hguards.give hheld hguard, .inl (h.give hheld hthread rfl)⟩
    | wait next =>
      have hheld : s.holder = some i := by
        refine of_decide_eq_true (hfits.gives ?_)
        rw [hthread]
        trivial
      have hgive : s.operate i = s.give i (.waiting next) := by simp only [Pool.operate, hthread]
      rw [hgive]
      exact ⟨hguards.give hheld hguard, .inl (h.give hheld hthread rfl)⟩
    | access write next =>
      have hheld : s.holder = some i := of_decide_eq_true hguard.1
      have haccess : s.operate i =
          { s with memory := write s.memory }.setThread i (.running (next s.memory)) := by
        simp only [Pool.operate, hthread]
      rw [haccess]
      have hmemory : ({ s with memory := write s.memory } : Pool M α).Guards := hguards
      refine ⟨hmemory.setThread ?_, .inl (h.access hheld hthread)⟩
      exact hguard.2 s.memory

theorem Ahead.wakeup (h : Ahead s a) (hinv : s.Inv) (hguards : s.Guards) (i : ℕ)
    (timedOut : Bool) :
    (s.wakeup i timedOut).Guards ∧
      (Ahead (s.wakeup i timedOut) a ∨ Ahead (s.wakeup i timedOut) (a.wakeup i timedOut)) := by
  have hfits := hinv.fits i
  have hguard := hguards i
  unfold Pool.wakeup
  cases hthread : s.threads i with
  | waiting next =>
    rw [hthread] at hfits hguard
    have hholder : s.holder ≠ some i := of_decide_eq_false hfits.1
    rw [h.threads_of_ne hholder, hthread]
    exact ⟨hguards.setThread (hguard timedOut), .inr (h.setThread hholder _)⟩
  | _ => exact ⟨hguards, .inl h⟩

/-- Nothing else than the threads changes the memory while the mutex is held. -/
def Respects (s : Pool M α) : Event M C → Prop
  | .memory _ => s.holder = none
  | _ => True

theorem Ahead.step (h : Ahead s a) (hinv : s.Inv) (hguards : s.Guards)
    (hcode : ∀ c, (code c).Guarded false) {e : Event M C} (he : s.Respects e) :
    (step code s e).Guards ∧
      (Ahead (step code s e) a ∨ Ahead (step code s e) (serialStep code a e)) := by
  cases e with
  | memory m =>
    refine ⟨hguards, .inr ⟨fun hfree => ⟨rfl, (h.free hfree).2⟩, fun k hk => ?_⟩⟩
    cases (show s.holder = none from he).symm.trans hk
  | start i c => exact h.begin hinv hguards hcode i c
  | step i => exact h.operate hinv hguards i
  | wakeup i timedOut => exact h.wakeup hinv hguards i timedOut

/-- What simulates the pool with single steps, simulates the pool in each run in which the mutex
is respected: with some of the events of the run, in their order. -/
theorem exists_serial {σ : Type*} {next : σ → Event M C → σ} {R : Pool M α → σ → Prop}
    {D : Pool M α → Event M C → Prop} (hkeeps : ∀ c, (code c).Keeps false false)
    (hcode : ∀ c, (code c).Guarded false) (hD : ∀ s e, D s e → s.Respects e)
    (hR : ∀ s a k e, Ahead s a → R a k → D s e → R (serialStep code a e) (next k e))
    {s a : Pool M α} {k : σ} {es : List (Event M C)} (hinv : s.Inv) (hguards : s.Guards)
    (h : Ahead s a) (hk : R a k) (hes : Runs.Meets (Pool.step code) D s es) :
    ∃ es', es'.Sublist es ∧ ∃ a', Ahead (Runs.run (Pool.step code) s es) a' ∧
      R a' (Runs.run next k es') := by
  induction es generalizing s a k with
  | nil => exact ⟨[], List.Sublist.refl [], a, h, hk⟩
  | cons e es ih =>
    obtain ⟨hguards', hstay | hmove⟩ := h.step hinv hguards hcode (hD s e hes.1)
    · obtain ⟨es', hsub, hend⟩ := ih (hinv.step hkeeps e) hguards' hstay hk hes.2
      exact ⟨es', hsub.cons e, hend⟩
    · have hk' := hR s a k e h hk hes.1
      obtain ⟨es', hsub, hend⟩ := ih (hinv.step hkeeps e) hguards' hmove hk' hes.2
      exact ⟨e :: es', hsub.cons_cons e, hend⟩

/-- The steps of the thread that holds the mutex take it to the end of its critical section. -/
theorem exists_steps_critical (code : C → Prog M α) {p : Prog M α} (hp : p.Keeps true false)
    {s : Pool M α} (hthread : s.threads i = .running p) (hholder : s.holder = some i) :
    ∃ n, let s' := Runs.run (Pool.step code) s (List.replicate n (.step i))
      s'.holder = none ∧ s'.memory = (p.critical s.memory).1 ∧
        s'.threads i = (p.critical s.memory).2 := by
  induction p generalizing s with
  | ret a => cases hp
  | lock next => cases hp.1
  | unlock next =>
    refine ⟨1, ?_⟩
    rw [List.replicate_one, Runs.run_cons, step_unlock hthread]
    exact ⟨rfl, rfl, setThread_self _⟩
  | wait next =>
    refine ⟨1, ?_⟩
    rw [List.replicate_one, Runs.run_cons, step_wait hthread]
    exact ⟨rfl, rfl, setThread_self _⟩
  | access write next ih =>
    obtain ⟨n, hn⟩ := ih s.memory (hp s.memory)
      (s := { s with memory := write s.memory }.setThread i (.running (next s.memory)))
      (setThread_self _) hholder
    refine ⟨n + 1, ?_⟩
    rw [List.replicate_succ, Runs.run_cons, step_access hthread]
    exact hn

theorem guards_initial (memory : M) : (initial memory : Pool M α).Guards := fun _ => trivial

theorem ahead_refl (s : Pool M α) (hfree : s.holder = none) : Ahead s s where
  free _ := ⟨rfl, rfl⟩
  held k hk := by cases hfree.symm.trans hk

end Pool

end Mutex
