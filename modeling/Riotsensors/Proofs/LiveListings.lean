import Riotsensors.Lib.Scan
import Riotsensors.Proofs.Listings
import Riotsensors.Spec.Listing

/-! The REST listings while packets arrive and clients call. A lambda that is registered all the
time is listed once, what is listed was registered when it was printed, and the loop ends. -/

namespace RS

namespace Threads

variable {o : ByteOrder} {s : Threads}

/-- Only packets change the registry. -/
theorem registry_step (o : ByteOrder) (s : Threads) (e : ThreadEvent) :
    (step o s e).linux.registry = s.linux.registry ∨
      ∃ heap m, (step o s e).linux.registry = (Linux.act heap s.linux m).state.registry := by
  by_cases he : ∃ d, e = .packet d
  · obtain ⟨d, rfl⟩ := he
    refine .inr ⟨d.env.heap, Linux.readPacket o d.env d.packet, ?_⟩
    rw [← linux_packet]
    rfl
  · exact .inl (alike_step o s fun d hd => he ⟨d, hd⟩).registry

theorem wf_step (h : s.linux.registry.WF) (e : ThreadEvent) :
    (step o s e).linux.registry.WF := by
  rcases registry_step o s e with hsame | ⟨heap, m, hact⟩
  · rwa [hsame]
  · rw [hact]
    exact Linux.wf_act h heap m

theorem counter_step_le (h : s.linux.registry.WF) (e : ThreadEvent) :
    s.linux.registry.lambdaCounter.toNat ≤ (step o s e).linux.registry.lambdaCounter.toNat := by
  rcases registry_step o s e with hsame | ⟨heap, m, hact⟩
  · rw [hsame]
  · rw [hact]
    exact Linux.counter_act_le h heap m

/-- Below the counter slots are emptied only. -/
theorem slot_step (h : s.linux.registry.WF) (e : ThreadEvent) {i : ℕ}
    (hi : i < s.linux.registry.lambdaCounter.toNat) :
    (step o s e).linux.registry.slot i = none ∨
      (step o s e).linux.registry.slot i = s.linux.registry.slot i := by
  rcases registry_step o s e with hsame | ⟨heap, m, hact⟩
  · exact .inr (by rw [hsame])
  · rw [hact]
    cases hslot : (Linux.act heap s.linux m).state.registry.slot i with
    | none => exact .inl rfl
    | some l =>
      rcases Linux.slot_act h hslot with hold | ⟨-, -, -, -, -, -, -, hcounter, -⟩
      · exact .inr hold.symm
      · exact absurd hi (not_lt.mpr hcounter.ge)

end Threads

namespace ListLoop

variable {o : ByteOrder} {keep : RsRegisteredLambda ArgPtr → Bool}
  {print : Linux → RsRegisteredLambda ArgPtr → Option Body} {s : ListLoop}
  {S : Loop.State Threads (RsRegisteredLambda ArgPtr) Body}

/-- The loop as one over a table of records. -/
def loop (keep : RsRegisteredLambda ArgPtr → Bool)
    (print : Linux → RsRegisteredLambda ArgPtr → Option Body) :
    Loop Threads (RsRegisteredLambda ArgPtr) Body where
  bound t := t.linux.registry.lambdaCounter.toNat
  slot t i := t.linux.registry.slot i
  keep := keep
  print t l := print t.linux l

theorem stable_loop (o : ByteOrder) (keep : RsRegisteredLambda ArgPtr → Bool)
    (print : Linux → RsRegisteredLambda ArgPtr → Option Body) :
    (loop keep print).Stable (Threads.step o) fun t => t.linux.registry.WF where
  inv _ e h := Threads.wf_step h e
  bound _ e h := Threads.counter_step_le h e
  slot _ e _ h hi := Threads.slot_step h e hi
  live _ _ _ h hl := h.lt_counter hl

def Cursor.abs : RS.Cursor → Loop.Cursor (RsRegisteredLambda ArgPtr)
  | .looping i => .before i.toNat
  | .found i l => .found i.toNat l
  | .ended => .ended
  | .undefined => .failed

def LoopEvent.abs : RS.LoopEvent → Loop.Event ThreadEvent
  | .thread e => .change e
  | .round => .next

theorem Cursor.eq_found_of_abs {c : RS.Cursor} {i : ℕ} {l : RsRegisteredLambda ArgPtr}
    (h : Cursor.abs c = .found i l) : ∃ j, c = .found j l ∧ j.toNat = i := by
  cases c with
  | found j k =>
    obtain ⟨hj, rfl⟩ : j.toNat = i ∧ k = l := by simpa [Cursor.abs] using h
    exact ⟨j, rfl, hj⟩
  | _ => cases h

/-- The members for what was printed. -/
def printed (out : List (ℕ × RsRegisteredLambda ArgPtr × Body)) : Body :=
  out.flatMap fun x => .key (toString x.1) :: x.2.2

/-- The loop of the source in the state `s` stands where the one over the table does. -/
structure Stands (s : ListLoop) (S : Loop.State Threads (RsRegisteredLambda ArgPtr) Body) :
    Prop where
  table : S.table = s.threads
  cursor : S.cursor = Cursor.abs s.cursor
  found : ∀ i l, s.cursor = .found i l → l.id = i ∧ i.toNat < MAX_LAMBDAS
  members : s.members = printed S.out
  count : s.count = UInt8.ofNat S.out.length

theorem toNat_add_one {i : LambdaId} (hi : i.toNat < MAX_LAMBDAS) :
    (i + 1).toNat = i.toNat + 1 := by
  have hlt : i.toNat < 255 := hi
  rw [UInt8.toNat_add]
  change (i.toNat + 1) % 256 = _
  omega

theorem Stands.round (h : Stands s S) (hwf : s.threads.linux.registry.WF) :
    Stands (s.round keep print) ((loop keep print).next S) := by
  have hcursor := h.cursor
  have htable := h.table
  cases hs : s.cursor with
  | looping i =>
    have hbefore : S.cursor = .before i.toNat := hcursor.trans (congrArg Cursor.abs hs)
    have hbound : (loop keep print).bound S.table =
        (getNumberOfRegisteredLambdas s.threads.linux.registry).toNat := by rw [htable]; rfl
    have hslot : (loop keep print).slot S.table i.toNat =
        getRegisteredLambdaById s.threads.linux.registry i := by rw [htable, hwf.getById]; rfl
    simp only [ListLoop.round, Loop.next, hs, hbefore, hbound, hslot, UInt8.lt_iff_toNat_lt]
    by_cases hi : i.toNat < (getNumberOfRegisteredLambdas s.threads.linux.registry).toNat
    · rw [if_pos hi, if_pos hi]
      have hmax : i.toNat < MAX_LAMBDAS :=
        hi.trans_le (Nat.le_of_lt_succ (getNumberOfRegisteredLambdas _).toNat_lt)
      cases hget : getRegisteredLambdaById s.threads.linux.registry i with
      | none =>
        refine ⟨htable, ?_, fun _ _ hnext => ?_, h.members, h.count⟩
        · exact congrArg Loop.Cursor.before (toNat_add_one hmax).symm
        · cases hnext
      | some l =>
        refine ⟨htable, rfl, fun j k hnext => ?_, h.members, h.count⟩
        obtain ⟨rfl, rfl⟩ : i = j ∧ l = k := by simpa using hnext
        rw [hwf.getById] at hget
        exact ⟨UInt8.toNat_inj.mp (hwf.ids _ _ hget), hmax⟩
    · rw [if_neg hi, if_neg hi]
      refine ⟨htable, rfl, fun _ _ hnext => ?_, h.members, h.count⟩
      cases hnext
  | found i l =>
    obtain ⟨hid, hmax⟩ := h.found i l hs
    have hfound : S.cursor = .found i.toNat l := hcursor.trans (congrArg Cursor.abs hs)
    have hslot : (loop keep print).slot S.table i.toNat = s.threads.linux.entry l := by
      rw [htable, Linux.entry, hid]
      rfl
    have hkeep : (loop keep print).keep l = keep l := rfl
    have hprint : (loop keep print).print S.table l = print s.threads.linux l := by
      rw [htable]
      rfl
    simp only [ListLoop.round, Loop.next, hs, hfound, hslot, hkeep, hprint,
      Option.isNone_iff_eq_none]
    by_cases hgone : s.threads.linux.entry l = none
    · rw [if_pos hgone, if_pos hgone]
      refine ⟨htable, rfl, fun _ _ hnext => ?_, h.members, h.count⟩
      cases hnext
    · rw [if_neg hgone, if_neg hgone]
      cases keep l with
      | false =>
        refine ⟨htable, ?_, fun _ _ hnext => ?_, h.members, h.count⟩
        · exact congrArg Loop.Cursor.before (toNat_add_one hmax).symm
        · cases hnext
      | true =>
        cases print s.threads.linux l with
        | none =>
          refine ⟨htable, rfl, fun _ _ hnext => ?_, h.members, h.count⟩
          cases hnext
        | some value =>
          refine ⟨htable, ?_, fun _ _ hnext => ?_, ?_, ?_⟩
          · exact congrArg Loop.Cursor.before (toNat_add_one hmax).symm
          · cases hnext
          · simp only [if_true, printed, List.flatMap_append, List.flatMap_singleton, hid]
            rw [h.members, printed]
          · simp only [if_true, List.length_append, List.length_singleton, UInt8.ofNat_add]
            rw [h.count]
            rfl
  | ended =>
    have hended : S.cursor = .ended := hcursor.trans (congrArg Cursor.abs hs)
    simp only [ListLoop.round, Loop.next, hs, hended]
    exact h
  | undefined =>
    have hfailed : S.cursor = .failed := hcursor.trans (congrArg Cursor.abs hs)
    simp only [ListLoop.round, Loop.next, hs, hfailed]
    exact h

theorem Stands.step (h : Stands s S) (hwf : s.threads.linux.registry.WF) (e : LoopEvent) :
    Stands (s.step keep print o e)
      ((loop keep print).step (Threads.step o) S (LoopEvent.abs e)) := by
  cases e with
  | thread e => exact ⟨congrArg (Threads.step o · e) h.table, h.cursor, h.found, h.members, h.count⟩
  | round => exact h.round hwf

theorem threads_round (s : ListLoop) : (s.round keep print).threads = s.threads := by
  unfold ListLoop.round
  split
  · split_ifs
    · split <;> rfl
    · rfl
  · split_ifs
    · rfl
    · split <;> rfl
    · rfl
  · rfl

theorem stands_run (h : Stands s S) (hwf : s.threads.linux.registry.WF) (es : List LoopEvent) :
    Stands (Runs.run (step keep print o) s es)
      (Runs.run ((loop keep print).step (Threads.step o)) S (es.map LoopEvent.abs)) := by
  induction es generalizing s S with
  | nil => exact h
  | cons e es ih =>
    refine ih (h.step hwf e) ?_
    cases e with
    | thread e => exact Threads.wf_step hwf e
    | round =>
      rw [ListLoop.step, threads_round]
      exact hwf

/-- What a listing shows whose loop met the state `s₀` and ended after `es`. -/
structure Shows (keep : RsRegisteredLambda ArgPtr → Bool)
    (print : Linux → RsRegisteredLambda ArgPtr → Option Body) (o : ByteOrder) (s₀ : ListLoop)
    (es : List LoopEvent) (ms : List Member) : Prop where
  body : (Runs.run (step keep print o) s₀ es).body = listing ms
  /-- No lambda is shown twice. -/
  ascending : (ms.map Member.id).Pairwise (· < ·)
  kept : ∀ m ∈ ms, keep m.lambda = true
  /-- What is shown was so at some moment of the loop. -/
  current : ∀ m ∈ ms, ∃ pre, pre <+: es ∧
    let t := (Runs.run (step keep print o) s₀ pre).threads.linux
    t.registry.slot m.id = some m.lambda ∧ print t m.lambda = some m.value
  /-- What was there all the time is shown. -/
  complete : ∀ i l, s₀.threads.linux.registry.slot i = some l →
    (Runs.run (step keep print o) s₀ es).threads.linux.registry.slot i = some l →
    keep l = true → ∃ m ∈ ms, m.id = i ∧ m.lambda = l

def member (x : ℕ × RsRegisteredLambda ArgPtr × Body) : Member := ⟨x.1, x.2.1, x.2.2⟩

theorem stands_start (t : Threads) : Stands (start t) (Loop.start t) where
  table := rfl
  cursor := rfl
  found _ _ hcursor := by cases hcursor
  members := rfl
  count := rfl

theorem exists_prefix_map {α β : Type} {f : α → β} {as : List α} {pre : List β}
    (h : pre <+: as.map f) : ∃ pre', pre' <+: as ∧ pre = pre'.map f := by
  refine ⟨as.take pre.length, List.take_prefix _ _, ?_⟩
  rw [List.map_take]
  exact List.prefix_iff_eq_take.mp h

theorem length_le_of_ascending {is : List ℕ} {n : ℕ} (h : is.Pairwise (· < ·))
    (hn : ∀ i ∈ is, i < n) : is.length ≤ n := by
  have hnodup : is.Nodup := h.imp Nat.ne_of_lt
  have hsub : is.toFinset ⊆ Finset.range n := fun i hi =>
    Finset.mem_range.mpr (hn i (List.mem_toFinset.mp hi))
  have hcard := Finset.card_le_card hsub
  rwa [List.toFinset_card_of_nodup hnodup, Finset.card_range] at hcard

variable {t₀ : Threads} {es : List LoopEvent}

theorem shows_of_ended (hwf : t₀.linux.registry.WF)
    (hended : (Runs.run (step keep print o) (start t₀) es).cursor = .ended) :
    ∃ ms, Shows keep print o (start t₀) es ms := by
  have hstands : ∀ es, Stands (Runs.run (step keep print o) (start t₀) es)
      (Runs.run ((loop keep print).step (Threads.step o)) (Loop.start t₀)
        (es.map LoopEvent.abs)) := stands_run (stands_start t₀) hwf
  have hholds := fun es => Loop.Holds.run (stable_loop o keep print) hwf es
  have hcurrent : ∀ x ∈ (Runs.run ((loop keep print).step (Threads.step o)) (Loop.start t₀)
      (es.map LoopEvent.abs)).out, keep x.2.1 = true ∧ ∃ pre, pre <+: es ∧
        let t := (Runs.run (step keep print o) (start t₀) pre).threads.linux
        t.registry.slot x.1 = some x.2.1 ∧ print t x.2.1 = some x.2.2 := by
    intro x hx
    obtain ⟨pre, hpre, hfound, hlive, hkeep, hprint⟩ :=
      (Loop.printed_along (es.map LoopEvent.abs) hx).resolve_left List.not_mem_nil
    obtain ⟨pre', hpre', rfl⟩ := exists_prefix_map hpre
    have hslot := ((hholds _).found _ _ hfound).2.resolve_left hlive
    have htable := (hstands pre').table
    refine ⟨hkeep, pre', hpre', ?_, ?_⟩
    · rw [← htable]
      exact hslot
    · rw [← htable]
      exact hprint
  have hall := hholds (es.map LoopEvent.abs)
  have hloop := hstands es
  refine ⟨(Runs.run ((loop keep print).step (Threads.step o)) (Loop.start t₀)
    (es.map LoopEvent.abs)).out.map member, ?_, ?_, ?_, ?_, ?_⟩
  · have hlength := length_le_of_ascending hall.sorted (n := MAX_LAMBDAS) fun i hi => by
      obtain ⟨x, hx, rfl⟩ := List.mem_map.mp hi
      obtain ⟨-, pre, -, hslot, -⟩ := hcurrent x hx
      exact Registry.WF.lt_max hslot
    rw [List.length_map] at hlength
    rw [body, hloop.members, hloop.count, printed, listing, List.flatMap_map, List.length_map,
      UInt8.toNat_ofNat', Nat.mod_eq_of_lt (Nat.lt_succ_of_le hlength)]
    rfl
  · rw [List.map_map]
    exact hall.sorted
  · intro m hm
    obtain ⟨x, hx, rfl⟩ := List.mem_map.mp hm
    exact (hcurrent x hx).1
  · intro m hm
    obtain ⟨x, hx, rfl⟩ := List.mem_map.mp hm
    exact (hcurrent x hx).2
  · intro i l h0 hnow hkeep
    have hpassed : (Runs.run ((loop keep print).step (Threads.step o)) (Loop.start t₀)
        (es.map LoopEvent.abs)).cursor.Passed i := by
      rw [hloop.cursor, hended]
      trivial
    rw [← hloop.table] at hnow
    obtain ⟨value, hmem⟩ := hall.covers i l hpassed h0 hnow hkeep
    exact ⟨_, List.mem_map.mpr ⟨_, hmem, rfl⟩, rfl, rfl⟩

def isRound : LoopEvent → Bool
  | .round => true
  | .thread _ => false

theorem countP_abs (es : List LoopEvent) :
    (es.map LoopEvent.abs).countP Loop.isNext = es.countP isRound := by
  rw [List.countP_map]
  refine List.countP_congr fun e _ => ?_
  cases e <;> exact Iff.rfl

/-- In every run of the threads, and with any steps of theirs between those of the loop: a listing
that ends shows each lambda that is there all the time, and only what was there; the loop is
undefined only where a record is freed or cannot be printed; and `2 * MAX_LAMBDAS + 1` steps end
it. -/
theorem listing_meanwhile (o : ByteOrder) (garbage : ArgPtr → RsLinuxRegisteredLambda)
    (earlier : List ThreadEvent) (keep : RsRegisteredLambda ArgPtr → Bool)
    (print : Linux → RsRegisteredLambda ArgPtr → Option Body) (es : List LoopEvent) :
    let s₀ := start (Runs.run (Threads.step o) (Threads.start (Linux.started garbage)) earlier)
    let s := Runs.run (step keep print o) s₀ es
    (s.cursor = .ended → ∃ ms, Shows keep print o s₀ es ms) ∧
    (s.cursor = .undefined → ∃ pre i l, pre <+: es ∧
      let t := Runs.run (step keep print o) s₀ pre
      t.cursor = .found i l ∧ (t.threads.linux.entry l = none ∨
        keep l = true ∧ print t.threads.linux l = none)) ∧
    (2 * MAX_LAMBDAS < es.countP isRound → s.cursor = .ended ∨ s.cursor = .undefined) := by
  have hwf : (Runs.run (Threads.step o) (Threads.start (Linux.started garbage))
      earlier).linux.registry.WF := by
    have hkeep : ∀ (t : Threads) (e : ThreadEvent), t.linux.registry.WF →
        (t.step o e).linux.registry.WF := fun _ e h => Threads.wf_step h e
    exact Runs.run_inv_all hkeep earlier Registry.WF.empty
  generalize Runs.run (Threads.step o) (Threads.start (Linux.started garbage)) earlier = t₀ at hwf
  have hstands : ∀ es, Stands (Runs.run (step keep print o) (start t₀) es)
      (Runs.run ((loop keep print).step (Threads.step o)) (Loop.start t₀)
        (es.map LoopEvent.abs)) := stands_run (stands_start t₀) hwf
  refine ⟨shows_of_ended hwf, fun hundefined => ?_, fun hrounds => ?_⟩
  · have hfailed : (Runs.run ((loop keep print).step (Threads.step o)) (Loop.start t₀)
        (es.map LoopEvent.abs)).cursor = .failed := by
      rw [(hstands es).cursor, hundefined]
      rfl
    rcases Loop.failed_along _ hfailed with hstart | ⟨pre, i, l, hpre, hfound, hwhy⟩
    · cases hstart
    · obtain ⟨pre', hpre', rfl⟩ := exists_prefix_map hpre
      have hthere := hstands pre'
      rw [hthere.cursor] at hfound
      obtain ⟨j, hcursor, rfl⟩ := Cursor.eq_found_of_abs hfound
      refine ⟨pre', j, l, hpre', hcursor, ?_⟩
      rw [hthere.table] at hwhy
      rw [Linux.entry, (hthere.found j l hcursor).1]
      exact hwhy
  · rw [← countP_abs] at hrounds
    have hover := Loop.over_of_steps (stable_loop o keep print) hwf
      (fun t _ => Nat.le_of_lt_succ t.linux.registry.lambdaCounter.toNat_lt) hrounds
    rw [(hstands es).cursor] at hover
    cases hcursor : (Runs.run (step keep print o) (start t₀) es).cursor with
    | looping i =>
      rw [hcursor] at hover
      exact hover.elim
    | found i l =>
      rw [hcursor] at hover
      exact hover.elim
    | ended => exact .inl rfl
    | undefined => exact .inr rfl

/-- The lambda `"a"`, with another registration while it is printed. -/
theorem listing_meanwhile_a : ∃ ms,
    Shows (fun _ => true) (fun _ => printLambdaProperties) .little
      (start (Runs.run (Threads.step .little) (Threads.start (Linux.started zeroed))
        [.packet registersA]))
      [.round, .thread (.packet registersA), .round, .round] ms :=
  (listing_meanwhile .little zeroed [.packet registersA] (fun _ => true)
    (fun _ => printLambdaProperties)
    [.round, .thread (.packet registersA), .round, .round]).1 rfl

end ListLoop

end RS
