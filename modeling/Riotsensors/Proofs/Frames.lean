import Riotsensors.Sanity.Threads

/-! The frame of Linux's packet handler: which entry and which call state a packet can
reach, for every packet and every state whose call states are allocated one by one. -/

namespace RS

open CMem

namespace Linux

/-! ## Packets that pass the test of type and size -/

/-- Every live entry has a call state of its own, which was allocated before. -/
structure Owned (s : Linux) : Prop where
  wf : s.registry.WF
  below : ∀ i l, s.registry.slot i = some l → l.arg < s.brk
  own : ∀ i j l m, s.registry.slot i = some l → s.registry.slot j = some m →
    l.arg = m.arg → i = j

/-- The cache record of the entry `i`, if there is one, is as it was. -/
def SameRecord (s s' : Linux) (i : ℕ) : Prop :=
  ∀ l, s.registry.slot i = some l → s'.heap l.arg = s.heap l.arg

/-- All registry and cache state is as it was. -/
structure Untouched (s s' : Linux) : Prop where
  registry : s'.registry = s.registry
  records : ∀ i, SameRecord s s' i

theorem Inv.owned {s : Linux} (h : s.Inv) : s.Owned := ⟨h.wf, h.below, h.own⟩

theorem Untouched.refl (s : Linux) : Untouched s s := ⟨rfl, fun _ _ _ => rfl⟩

variable {s : Linux}

end Linux

namespace Threads

/-- Packets are handled whatever the clients do meanwhile, who leave the registry and the
allocated call states where they are. -/
theorem inv_step {s : Threads} (h : s.linux.Inv) (o : ByteOrder) (e : ThreadEvent) :
    (step o s e).linux.Inv := by
  by_cases he : ∃ d, e = .packet d
  · obtain ⟨d, rfl⟩ := he
    exact h.receive d
  · exact (alike_step o s fun d hd => he ⟨d, hd⟩).inv h

end Threads

end RS
