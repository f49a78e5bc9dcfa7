import Riotsensors.Sanity.Blocks

/-! Memory over whole histories: when the process is safe, what it leaves behind on the heap,
and how long the strings are good that its calls hand out. -/

namespace RS

namespace Process

variable {o : ByteOrder} {s s' : Process}

theorem Inv.started_values (cached : ArgPtr → Bool) (code : ArgPtr → Int8) :
    (Process.started cached code).values.Inv :=
  Linux.Inv.started _

/-- From its start the process plays a history without freeing what it may not free exactly
if the history is defined on values and no string arrives for a lambda that has a number
cached. It then stores what the process on values stores, and beside the cached strings the
live blocks are the copies of string packets and the strings that a number was stored over. -/
theorem memory_of_run (o : ByteOrder) (cached : ArgPtr → Bool) (code : ArgPtr → Int8)
    (es : List LinuxEvent) :
    (((started cached code).playAll o es).isSome ↔
      Runs.Meets (Linux.next o) (fun s e => s.Defined o e ∧ s.Safe o e)
        (started cached code).values es) ∧
    ∀ s, (started cached code).playAll o es = some s →
      s.values = Runs.run (Linux.next o) (started cached code).values es ∧
      s.heap.live.card = s.values.held +
        Runs.total (Linux.next o) (Linux.leaksOf o) (started cached code).values es := by
  have h0 := And.intro (Inv.started cached code) (Inv.started_values cached code)
  refine ⟨(refines_play o).foldlM_isSome_iff h0 es, fun s hs => ?_⟩
  refine ⟨((refines_play o).foldlM_some h0 hs).2, ?_⟩
  have htotal := (refines_play o).foldlM_total (fun s => s.heap.live.card)
    (fun s => s.values.held) (Linux.leaksOf o)
    (fun _ _ _ hs hstep => leaves_play hs.1 hs.2 hstep) h0 hs
  have hlive : (started cached code).heap.live.card = 0 := rfl
  have hheld : (started cached code).values.held = 0 := rfl
  rw [hlive, hheld, Nat.add_zero, Nat.zero_add] at htotal
  exact htotal

end Process

end RS
