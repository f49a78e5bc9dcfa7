import Mathlib.Logic.Function.Basic
import Mathlib.Tactic
import Riotsensors.Lib.Runs

/-! Threads that share a memory and one mutex. What a thread runs is a tree of operations on the
mutex and accesses to the memory. A condition wait gives the mutex up and takes it again. -/

namespace Mutex

inductive Prog (M α : Type*) where
  | ret (a : α)
  | lock (next : Prog M α)
  | unlock (next : Prog M α)
  /-- A condition wait. It is told whether the time was over. -/
  | wait (next : Bool → Prog M α)
  /-- The memory is read and written at one moment. -/
  | access (write : M → M) (next : M → Prog M α)

namespace Prog

variable {M : Type*} {α β : Type*}

protected def bind : Prog M α → (α → Prog M β) → Prog M β
  | ret a, f => f a
  | lock p, f => lock (p.bind f)
  | unlock p, f => unlock (p.bind f)
  | wait p, f => wait fun timedOut => (p timedOut).bind f
  | access write p, f => access write fun m => (p m).bind f

end Prog

instance {M : Type*} : Monad (Prog M) where
  pure := Prog.ret
  bind := Prog.bind

section Operations

variable {M : Type*}

def lock : Prog M Unit := .lock (.ret ())

def unlock : Prog M Unit := .unlock (.ret ())

def timedwait : Prog M Bool := .wait .ret

def read {α : Type} (get : M → α) : Prog M α := .access id fun m => .ret (get m)

def write (set : M → M) : Prog M Unit := .access set fun _ => .ret ()

end Operations

/-! ## Who holds the mutex at a place of a program -/

namespace Prog

variable {M : Type*} {α β : Type*}

/-- Started by a thread that holds the mutex (or not), the program takes it only while it is not
held, gives it up only while it is, and returns with it held (or not). -/
def Keeps : Prog M α → Bool → Bool → Prop
  | ret _, held, held' => held = held'
  | lock p, held, held' => held = false ∧ p.Keeps true held'
  | unlock p, held, held' => held = true ∧ p.Keeps false held'
  | wait p, held, held' => held = true ∧ ∀ timedOut, (p timedOut).Keeps true held'
  | access _ p, held, held' => ∀ m, (p m).Keeps held held'

theorem Keeps.bind {p : Prog M α} {f : α → Prog M β} {held between held' : Bool}
    (hp : p.Keeps held between) (hf : ∀ a, (f a).Keeps between held') :
    (p.bind f).Keeps held held' := by
  induction p generalizing held with
  | ret a =>
    obtain rfl : held = between := hp
    exact hf a
  | lock p ih => exact ⟨hp.1, ih hp.2⟩
  | unlock p ih => exact ⟨hp.1, ih hp.2⟩
  | wait p ih => exact ⟨hp.1, fun timedOut => ih timedOut (hp.2 timedOut)⟩
  | access write p ih => exact fun m => ih m (hp m)

section Rules

variable {held held' between : Bool}

theorem Keeps.pure (a : α) : (Pure.pure a : Prog M α).Keeps held held := rfl

theorem Keeps.seq {α β : Type} {p : Prog M α} {f : α → Prog M β} (hp : p.Keeps held between)
    (hf : ∀ a, (f a).Keeps between held') : (p >>= f).Keeps held held' := hp.bind hf

theorem keeps_lock : (Mutex.lock : Prog M Unit).Keeps false true := ⟨rfl, rfl⟩

theorem keeps_unlock : (Mutex.unlock : Prog M Unit).Keeps true false := ⟨rfl, rfl⟩

theorem keeps_timedwait : (timedwait : Prog M Bool).Keeps true true := ⟨rfl, fun _ => rfl⟩

theorem keeps_read {α : Type} (get : M → α) : (read get).Keeps held held := fun _ => rfl

theorem keeps_write (set : M → M) : (write set).Keeps held held := fun _ => rfl

end Rules

end Prog

/-! ## Many threads -/

inductive Thread (M α : Type*) where
  | idle
  | running (p : Prog M α)
  /-- in a condition wait -/
  | waiting (next : Bool → Prog M α)
  /-- The wait is over, but for the mutex. -/
  | resuming (p : Prog M α)

structure Pool (M α : Type*) where
  memory : M
  holder : Option ℕ
  threads : ℕ → Thread M α
  /-- how often a thread has taken the mutex more than it has given it up -/
  depth : ℕ → ℤ

/-- What happens next. `C` names the programs that a thread may be given. -/
inductive Event (M C : Type*) where
  /-- Something else than the threads changes the memory. -/
  | memory (m : M)
  | start (i : ℕ) (c : C)
  /-- The next operation of a thread. -/
  | step (i : ℕ)
  /-- A wakeup, caused by someone or not, or the end of the time. -/
  | wakeup (i : ℕ) (timedOut : Bool)

namespace Pool

variable {M α C : Type*}

/-- No thread has started. -/
def initial (memory : M) : Pool M α := ⟨memory, none, fun _ => .idle, fun _ => 0⟩

def setThread (s : Pool M α) (i : ℕ) (t : Thread M α) : Pool M α :=
  { s with threads := Function.update s.threads i t }

/-- A mutex that is held is not taken. -/
def take (s : Pool M α) (i : ℕ) (next : Prog M α) : Pool M α :=
  match s.holder with
  | none =>
    { s with holder := some i, depth := Function.update s.depth i (s.depth i + 1) }.setThread i
      (.running next)
  | some _ => s

/-- Whoever holds the mutex, it is free afterwards. -/
def give (s : Pool M α) (i : ℕ) (t : Thread M α) : Pool M α :=
  { s with holder := none, depth := Function.update s.depth i (s.depth i - 1) }.setThread i t

def operate (s : Pool M α) (i : ℕ) : Pool M α :=
  match s.threads i with
  | .running (.lock next) => s.take i next
  | .running (.unlock next) => s.give i (.running next)
  | .running (.wait next) => s.give i (.waiting next)
  | .running (.access write next) =>
    { s with memory := write s.memory }.setThread i (.running (next s.memory))
  | .resuming next => s.take i next
  | _ => s

/-- A thread is given a program when it has none, or is done with the last one. -/
def begin (code : C → Prog M α) (s : Pool M α) (i : ℕ) (c : C) : Pool M α :=
  match s.threads i with
  | .idle | .running (.ret _) => s.setThread i (.running (code c))
  | _ => s

def wakeup (s : Pool M α) (i : ℕ) (timedOut : Bool) : Pool M α :=
  match s.threads i with
  | .waiting next => s.setThread i (.resuming (next timedOut))
  | _ => s

/-- A step that its thread cannot take now changes nothing. -/
def step (code : C → Prog M α) (s : Pool M α) : Event M C → Pool M α
  | .memory m => { s with memory := m }
  | .start i c => s.begin code i c
  | .step i => s.operate i
  | .wakeup i timedOut => s.wakeup i timedOut

end Pool

/-- The next operation takes the mutex. -/
def Thread.Takes {M α : Type*} : Thread M α → Prop
  | .running (.lock _) | .resuming _ => True
  | _ => False

/-- The next operation gives the mutex up. -/
def Thread.Gives {M α : Type*} : Thread M α → Prop
  | .running (.unlock _) | .running (.wait _) => True
  | _ => False

/-- No program is running, or it has returned. -/
def Thread.Out {M α : Type*} : Thread M α → Prop
  | .idle | .running (.ret _) => True
  | _ => False

/-- The mutex is used as it must be. -/
structure Pool.Sound {M α : Type*} (s : Pool M α) : Prop where
  /-- A thread that takes the mutex does not hold it. -/
  takes : ∀ i, (s.threads i).Takes → s.holder ≠ some i ∧ s.depth i = 0
  /-- A thread that gives it up holds it. -/
  gives : ∀ i, (s.threads i).Gives → s.holder = some i ∧ s.depth i = 1
  /-- At most one thread has taken it and not given it up. -/
  exclusive : ∀ i j, 0 < s.depth i → 0 < s.depth j → i = j
  /-- A thread whose program has returned does not hold it. -/
  out : ∀ i, (s.threads i).Out → s.holder ≠ some i ∧ s.depth i = 0

/-- Where a thread stands fits its holding the mutex, or not. -/
def Thread.Fits {M α : Type*} : Thread M α → Bool → Prop
  | .idle, held => held = false
  | .running p, held => p.Keeps held false
  | .waiting next, held => held = false ∧ ∀ timedOut, (next timedOut).Keeps true false
  | .resuming p, held => held = false ∧ p.Keeps true false

namespace Thread

variable {M α : Type*} {t : Thread M α} {held : Bool}

theorem Fits.takes (h : t.Fits held) (ht : t.Takes) : held = false := by
  unfold Takes at ht
  split at ht
  · exact h.1
  · exact h.1
  · exact ht.elim

theorem Fits.gives (h : t.Fits held) (ht : t.Gives) : held = true := by
  unfold Gives at ht
  split at ht
  · exact h.1
  · exact h.1
  · exact ht.elim

theorem Fits.out (h : t.Fits held) (ht : t.Out) : held = false := by
  unfold Out at ht
  split at ht
  · exact h
  · exact h
  · exact ht.elim

end Thread

namespace Pool

variable {M α C : Type*} {s : Pool M α} {i : ℕ}

structure Inv (s : Pool M α) : Prop where
  fits : ∀ i, (s.threads i).Fits (decide (s.holder = some i))
  depth : ∀ i, s.depth i = if s.holder = some i then 1 else 0

@[simp] theorem setThread_self (t : Thread M α) : (s.setThread i t).threads i = t :=
  Function.update_self _ _ _

theorem setThread_of_ne {j : ℕ} (h : j ≠ i) (t : Thread M α) :
    (s.setThread i t).threads j = s.threads j := Function.update_of_ne h _ _

theorem inv_initial (memory : M) : (initial memory : Pool M α).Inv :=
  ⟨fun _ => rfl, fun _ => rfl⟩

theorem Inv.setThread (h : s.Inv) {t : Thread M α} (ht : t.Fits (decide (s.holder = some i))) :
    (s.setThread i t).Inv := by
  refine ⟨fun j => ?_, h.depth⟩
  by_cases hj : j = i
  · rw [hj, setThread_self]
    exact ht
  · rw [setThread_of_ne hj]
    exact h.fits j

theorem Inv.memory (h : s.Inv) (m : M) : { s with memory := m }.Inv := ⟨h.fits, h.depth⟩

theorem Inv.take (h : s.Inv) {next : Prog M α} (hnext : next.Keeps true false) :
    (s.take i next).Inv := by
  unfold Pool.take
  cases hholder : s.holder with
  | some j => exact h
  | none =>
    refine ⟨fun j => ?_, fun j => ?_⟩
    · by_cases hj : j = i
      · simpa [Pool.setThread, hj, Thread.Fits] using hnext
      · have hfits := h.fits j
        rw [hholder] at hfits
        simpa [Pool.setThread, hj, Ne.symm hj] using hfits
    · have hdepth := h.depth j
      rw [hholder] at hdepth
      by_cases hj : j = i
      · subst hj
        simpa [Pool.setThread] using hdepth
      · simpa [Pool.setThread, hj, Ne.symm hj] using hdepth

theorem Inv.give (h : s.Inv) (hholder : s.holder = some i) {t : Thread M α} (ht : t.Fits false) :
    (s.give i t).Inv := by
  refine ⟨fun j => ?_, fun j => ?_⟩
  · by_cases hj : j = i
    · simpa [Pool.give, Pool.setThread, hj] using ht
    · have hfits := h.fits j
      rw [hholder] at hfits
      simpa [Pool.give, Pool.setThread, hj, Ne.symm hj] using hfits
  · have hdepth := h.depth j
    rw [hholder] at hdepth
    by_cases hj : j = i
    · subst hj
      rw [if_pos rfl] at hdepth
      simp [Pool.give, Pool.setThread, hdepth]
    · simpa [Pool.give, Pool.setThread, hj, Ne.symm hj] using hdepth

/-- One case for each kind of operation. -/
theorem Inv.operate (h : s.Inv) (i : ℕ) : (s.operate i).Inv := by
  have hfits := h.fits i
  unfold Pool.operate
  split
  next next hthread =>
    rw [hthread] at hfits
    exact h.take hfits.2
  next next hthread =>
    rw [hthread] at hfits
    exact h.give (of_decide_eq_true hfits.1) hfits.2
  next next hthread =>
    rw [hthread] at hfits
    exact h.give (of_decide_eq_true hfits.1) ⟨rfl, hfits.2⟩
  next write next hthread =>
    rw [hthread] at hfits
    exact (h.memory (write s.memory)).setThread (hfits s.memory)
  next next hthread =>
    rw [hthread] at hfits
    exact h.take hfits.2
  next => exact h

theorem Inv.begin {code : C → Prog M α} (hcode : ∀ c, (code c).Keeps false false) (h : s.Inv)
    (i : ℕ) (c : C) : (s.begin code i c).Inv := by
  have hfits := h.fits i
  unfold Pool.begin
  split
  next hthread =>
    rw [hthread] at hfits
    refine h.setThread ?_
    rw [show decide (s.holder = some i) = false from hfits]
    exact hcode c
  next a hthread =>
    rw [hthread] at hfits
    refine h.setThread ?_
    rw [show decide (s.holder = some i) = false from hfits]
    exact hcode c
  next => exact h

theorem Inv.wakeup (h : s.Inv) (i : ℕ) (timedOut : Bool) : (s.wakeup i timedOut).Inv := by
  have hfits := h.fits i
  unfold Pool.wakeup
  split
  next next hthread =>
    rw [hthread] at hfits
    exact h.setThread ⟨hfits.1, hfits.2 timedOut⟩
  next => exact h

theorem Inv.step {code : C → Prog M α} (hcode : ∀ c, (code c).Keeps false false) (h : s.Inv)
    (e : Event M C) : (s.step code e).Inv := by
  cases e with
  | memory m => exact h.memory m
  | start i c => exact h.begin hcode i c
  | step i => exact h.operate i
  | wakeup i timedOut => exact h.wakeup i timedOut

theorem Inv.free (h : s.Inv) (hfree : decide (s.holder = some i) = false) :
    s.holder ≠ some i ∧ s.depth i = 0 := by
  have hholder : s.holder ≠ some i := of_decide_eq_false hfree
  exact ⟨hholder, (h.depth i).trans (if_neg hholder)⟩

theorem Inv.holder_of_depth (h : s.Inv) (hdepth : 0 < s.depth i) : s.holder = some i := by
  by_contra hholder
  rw [h.depth i, if_neg hholder] at hdepth
  exact lt_irrefl _ hdepth

theorem Inv.sound (h : s.Inv) : s.Sound where
  takes i ht := h.free ((h.fits i).takes ht)
  gives i ht := by
    have hholder : s.holder = some i := of_decide_eq_true ((h.fits i).gives ht)
    exact ⟨hholder, (h.depth i).trans (if_pos hholder)⟩
  exclusive i j hi hj :=
    Option.some.inj ((h.holder_of_depth hi).symm.trans (h.holder_of_depth hj))
  out i ht := h.free ((h.fits i).out ht)

/-- A run keeps the invariant, whatever happens to the memory, if the programs keep their side of
the mutex. -/
theorem inv_run {code : C → Prog M α} (hcode : ∀ c, (code c).Keeps false false) (memory : M)
    (es : List (Event M C)) : (Runs.run (step code) (initial memory) es).Inv :=
  Runs.run_inv_all (fun _ e h => h.step hcode e) es (inv_initial memory)

/-! One operation of a thread. -/

section Operation

variable {code : C → Prog M α} {next : Prog M α}

/-- The state after a free mutex was taken. -/
def taken (s : Pool M α) (i : ℕ) (next : Prog M α) : Pool M α :=
  { s with holder := some i, depth := Function.update s.depth i (s.depth i + 1) }.setThread i
    (.running next)

theorem step_lock (h : s.threads i = .running (.lock next)) (hfree : s.holder = none) :
    step code s (.step i) = s.taken i next := by
  simp only [step, operate, h, take, hfree, taken]

theorem step_unlock (h : s.threads i = .running (.unlock next)) :
    step code s (.step i) = s.give i (.running next) := by
  simp only [step, operate, h]

theorem step_wait {next : Bool → Prog M α} (h : s.threads i = .running (.wait next)) :
    step code s (.step i) = s.give i (.waiting next) := by
  simp only [step, operate, h]

theorem step_access {write : M → M} {next : M → Prog M α}
    (h : s.threads i = .running (.access write next)) : step code s (.step i) =
      { s with memory := write s.memory }.setThread i (.running (next s.memory)) := by
  simp only [step, operate, h]

theorem step_resuming (h : s.threads i = .resuming next) (hfree : s.holder = none) :
    step code s (.step i) = s.taken i next := by
  simp only [step, operate, h, take, hfree, taken]

theorem step_wakeup {next : Bool → Prog M α} (h : s.threads i = .waiting next) (timedOut : Bool) :
    step code s (.wakeup i timedOut) = s.setThread i (.resuming (next timedOut)) := by
  simp only [step, wakeup, h]

end Operation

/-- The thread that holds the mutex is never in need of another: its own steps free it. -/
theorem exists_free (code : C → Prog M α) (h : s.Inv) (hholder : s.holder = some i) :
    ∃ n, (Runs.run (step code) s (List.replicate n (Event.step i))).holder = none := by
  have hfits := h.fits i
  rw [decide_eq_true hholder] at hfits
  cases hthread : s.threads i with
  | idle =>
    rw [hthread] at hfits
    cases hfits
  | waiting next =>
    rw [hthread] at hfits
    cases hfits.1
  | resuming p =>
    rw [hthread] at hfits
    cases hfits.1
  | running p =>
    rw [hthread] at hfits
    clear h
    induction p generalizing s with
    | ret a => cases hfits
    | lock next => cases hfits.1
    | unlock next =>
      refine ⟨1, ?_⟩
      rw [List.replicate_one, Runs.run_cons, step_unlock hthread]
      rfl
    | wait next =>
      refine ⟨1, ?_⟩
      rw [List.replicate_one, Runs.run_cons, step_wait hthread]
      rfl
    | access write next ih =>
      obtain ⟨n, hn⟩ := ih s.memory
        (s := { s with memory := write s.memory }.setThread i (.running (next s.memory)))
        hholder (hfits s.memory) (setThread_self _)
      refine ⟨n + 1, ?_⟩
      rw [List.replicate_succ, Runs.run_cons, step_access hthread]
      exact hn

/-! ## All threads to their end -/

/-- What needs nothing but the threads and the clock. -/
def Unaided : Event M C → Prop
  | .step _ | .wakeup _ true => True
  | _ => False

/-- The thread that an event is a step of. -/
def actor : Event M C → Option ℕ
  | .step i | .start i _ | .wakeup i _ => some i
  | .memory _ => none

theorem threads_step_of_ne {s : Pool M α} {e : Event M C} {j : ℕ} (code : C → Prog M α)
    (hj : actor e ≠ some j) : (step code s e).threads j = s.threads j := by
  cases e with
  | memory m => rfl
  | start i c =>
    have hne : j ≠ i := fun heq => hj (heq ▸ rfl)
    simp only [step, begin]
    split
    · exact setThread_of_ne hne _
    · exact setThread_of_ne hne _
    · rfl
  | step i =>
    have hne : j ≠ i := fun heq => hj (heq ▸ rfl)
    have htake : ∀ next, (s.take i next).threads j = s.threads j := by
      intro next
      unfold take
      split
      · exact setThread_of_ne hne _
      · rfl
    simp only [step, operate]
    split
    · exact htake _
    · exact setThread_of_ne hne _
    · exact setThread_of_ne hne _
    · exact setThread_of_ne hne _
    · exact htake _
    · rfl
  | wakeup i timedOut =>
    have hne : j ≠ i := fun heq => hj (heq ▸ rfl)
    simp only [step, wakeup]
    split
    · exact setThread_of_ne hne _
    · rfl

theorem threads_run_of_ne {j : ℕ} (code : C → Prog M α) {s : Pool M α} {es : List (Event M C)}
    (hes : ∀ e ∈ es, actor e ≠ some j) :
    (Runs.run (step code) s es).threads j = s.threads j := by
  induction es generalizing s with
  | nil => rfl
  | cons e es ih =>
    rw [Runs.run_cons, ih fun e' he' => hes e' (List.mem_cons_of_mem e he'),
      threads_step_of_ne code (hes e List.mem_cons_self)]

/-- The steps of thread `i` alone, and the end of its waits, lead to `s'`. -/
def Alone (code : C → Prog M α) (i : ℕ) (s s' : Pool M α) : Prop :=
  ∃ es : List (Event M C), (∀ e ∈ es, Unaided e ∧ actor e = some i) ∧ Runs.run (step code) s es = s'

theorem Alone.refl {code : C → Prog M α} (s : Pool M α) : Alone code i s s :=
  ⟨[], fun _ he => absurd he List.not_mem_nil, rfl⟩

theorem Alone.cons {code : C → Prog M α} {s s₁ s₂ : Pool M α} {e : Event M C} (he : Unaided e)
    (hactor : actor e = some i) (hstep : step code s e = s₁) (h : Alone code i s₁ s₂) :
    Alone code i s s₂ := by
  obtain ⟨es, hes, hrun⟩ := h
  refine ⟨e :: es, ?_, ?_⟩
  · intro e' he'
    rcases List.mem_cons.mp he' with rfl | hrest
    · exact ⟨he, hactor⟩
    · exact hes e' hrest
  · rw [Runs.run_cons, hstep, hrun]

theorem Alone.step {code : C → Prog M α} {s s₁ s₂ : Pool M α}
    (hstep : Pool.step code s (.step i) = s₁) (h : Alone code i s₁ s₂) : Alone code i s s₂ :=
  .cons (e := .step i) trivial rfl hstep h

theorem Alone.wakeup {code : C → Prog M α} {s s₁ s₂ : Pool M α}
    (hstep : Pool.step code s (.wakeup i true) = s₁) (h : Alone code i s₁ s₂) :
    Alone code i s s₂ :=
  .cons (e := .wakeup i true) trivial rfl hstep h

/-- A thread that the mutex does not keep waiting returns. -/
theorem exists_return_of_running (code : C → Prog M α) {p : Prog M α} {held : Bool}
    (hp : p.Keeps held false) {s : Pool M α} (hthread : s.threads i = .running p)
    (hholder : s.holder = if held then some i else none) :
    ∃ s', Alone code i s s' ∧ (s'.threads i).Out ∧ s'.holder = none := by
  induction p generalizing held s with
  | ret a =>
    obtain rfl : held = false := hp
    exact ⟨s, .refl s, by rw [hthread]; trivial, hholder⟩
  | lock next ih =>
    obtain ⟨rfl, hnext⟩ := hp
    obtain ⟨s', halone, hend⟩ := ih hnext (s := s.taken i next) (setThread_self _) rfl
    exact ⟨s', .step (step_lock hthread hholder) halone, hend⟩
  | unlock next ih =>
    obtain ⟨rfl, hnext⟩ := hp
    obtain ⟨s', halone, hend⟩ := ih hnext (s := s.give i (.running next)) (setThread_self _) rfl
    exact ⟨s', .step (step_unlock hthread) halone, hend⟩
  | wait next ih =>
    obtain ⟨rfl, hnext⟩ := hp
    let waiting := s.give i (.waiting next)
    let ended := waiting.setThread i (.resuming (next true))
    obtain ⟨s', halone, hend⟩ := ih true (hnext true) (s := ended.taken i (next true))
      (setThread_self _) rfl
    have hended : step code waiting (.wakeup i true) = ended :=
      step_wakeup (Function.update_self _ _ _) true
    have htaken : step code ended (.step i) = ended.taken i (next true) :=
      step_resuming (setThread_self _) rfl
    refine ⟨s', ?_, hend⟩
    exact .step (step_wait hthread) (.wakeup hended (.step htaken halone))
  | access write next ih =>
    obtain ⟨s', halone, hend⟩ := ih s.memory (hp s.memory)
      (s := { s with memory := write s.memory }.setThread i (.running (next s.memory)))
      (setThread_self _) hholder
    exact ⟨s', .step (step_access hthread) halone, hend⟩

/-- While nobody holds the mutex, every thread can go on to its end. -/
theorem exists_return (code : C → Prog M α) {s : Pool M α} (h : s.Inv) (hfree : s.holder = none)
    (i : ℕ) : ∃ s', Alone code i s s' ∧ (s'.threads i).Out ∧ s'.holder = none := by
  have hfits := h.fits i
  have hheld : decide (s.holder = some i) = false := by
    rw [hfree]
    rfl
  rw [hheld] at hfits
  cases hthread : s.threads i with
  | idle => exact ⟨s, .refl s, by rw [hthread]; trivial, hfree⟩
  | running p =>
    rw [hthread] at hfits
    exact exists_return_of_running code hfits hthread hfree
  | waiting next =>
    rw [hthread] at hfits
    let ended := s.setThread i (.resuming (next true))
    obtain ⟨s', halone, hend⟩ := exists_return_of_running code (hfits.2 true)
      (s := ended.taken i (next true)) (setThread_self _) rfl
    have htaken : step code ended (.step i) = ended.taken i (next true) :=
      step_resuming (setThread_self _) hfree
    exact ⟨s', .wakeup (step_wakeup hthread true) (.step htaken halone), hend⟩
  | resuming p =>
    rw [hthread] at hfits
    obtain ⟨s', halone, hend⟩ := exists_return_of_running code hfits.2 (s := s.taken i p)
      (setThread_self _) rfl
    exact ⟨s', .step (step_resuming hthread hfree) halone, hend⟩

/-- No deadlock: the threads come to their end one after the other, whoever holds the mutex
first. -/
theorem exists_all_return {code : C → Prog M α} (hcode : ∀ c, (code c).Keeps false false)
    {s : Pool M α} (h : s.Inv) (n : ℕ) :
    ∃ es : List (Event M C), (∀ e ∈ es, Unaided e) ∧
      (Runs.run (step code) s es).holder = none ∧
      ∀ i < n, ((Runs.run (step code) s es).threads i).Out := by
  induction n with
  | zero =>
    cases hholder : s.holder with
    | none =>
      refine ⟨[], fun _ he => absurd he List.not_mem_nil, hholder, fun i hi => ?_⟩
      exact absurd hi (Nat.not_lt_zero i)
    | some j =>
      obtain ⟨k, hk⟩ := exists_free code h hholder
      refine ⟨List.replicate k (.step j), fun e he => ?_, hk, fun i hi => ?_⟩
      · rw [List.eq_of_mem_replicate he]
        trivial
      · exact absurd hi (Nat.not_lt_zero i)
  | succ n ih =>
    obtain ⟨es, hes, hfree, hout⟩ := ih
    have hinv : (Runs.run (step code) s es).Inv :=
      Runs.run_inv_all (fun _ e h => h.step hcode e) es h
    obtain ⟨s', ⟨es', hes', hrun⟩, hend, hfree'⟩ := exists_return code hinv hfree n
    refine ⟨es ++ es', fun e he => ?_, ?_, fun i hi => ?_⟩
    · rcases List.mem_append.mp he with hfirst | hlast
      · exact hes e hfirst
      · exact (hes' e hlast).1
    · rw [Runs.run_append, hrun, hfree']
    · rw [Runs.run_append, hrun]
      rcases Nat.lt_succ_iff_lt_or_eq.mp hi with hlt | rfl
      · have hsame : s'.threads i = (Runs.run (step code) s es).threads i := by
          rw [← hrun]
          refine threads_run_of_ne code fun e he hactor => ?_
          rw [(hes' e he).2] at hactor
          exact hlt.ne (Option.some.inj hactor).symm
        rw [hsame]
        exact hout i hlt
      · exact hend

end Pool

end Mutex
