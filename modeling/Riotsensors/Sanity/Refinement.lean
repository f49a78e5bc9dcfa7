import Riotsensors.Lib.Directory
import Riotsensors.Sanity.Registry

/-! The registry implements a numbered directory of C strings: each operation on
the slots is the directory's operation, and both lookups read the directory. -/

namespace RS

open CMem

variable {α ν : Type}

namespace Registry

/-- The directory that the slots below the counter spell out. `val` is what the
reader keeps of a record beside its name. -/
def directory (val : RsRegisteredLambda α → ν) (r : Registry α) : Directory (List UInt8) ν :=
  ⟨(List.range r.lambdaCounter.toNat).map fun i => (r.slot i).map fun l => (l.text, val l)⟩

variable {val : RsRegisteredLambda α → ν} {r : Registry α}

@[simp] theorem next_directory : (r.directory val).next = r.lambdaCounter.toNat := by
  simp [Directory.next, directory]

theorem directory_empty : (empty : Registry α).directory val = Directory.empty := rfl

theorem WF.look_directory (h : r.WF) (i : ℕ) :
    (r.directory val).look i = (r.slot i).map fun l => (l.text, val l) := by
  by_cases hi : i < r.lambdaCounter.toNat
  · simp only [Directory.look, directory, List.getElem?_map, List.getElem?_range hi,
      Option.map_some, Option.join_some]
  · rw [Directory.look_of_le (by rw [next_directory]; omega), h.vacant i (by omega),
      Option.map_none]

theorem WF.look_eq_some (h : r.WF) {i : ℕ} {n : List UInt8} {v : ν} :
    (r.directory val).look i = some (n, v) ↔ ∃ l, r.slot i = some l ∧ l.text = n ∧ val l = v := by
  rw [h.look_directory, Option.map_eq_some_iff]
  simp only [Prod.mk.injEq]

theorem WF.directory_push (h : r.WF) (hc : r.lambdaCounter.toNat < MAX_LAMBDAS)
    {l : RsRegisteredLambda α} (hl : l.id = r.lambdaCounter) :
    (r.push l).directory val = (r.directory val).enter l.text (val l) := by
  apply Directory.ext_look
  · rw [next_directory, Directory.next_enter, next_directory, toNat_counter_push hc]
  · intro i _
    rw [(h.push hc hl).look_directory, Directory.look_enter, next_directory, slot_push hc]
    split_ifs
    · rfl
    · rw [h.look_directory]

theorem WF.directory_unregister (h : r.WF) (id : LambdaId) :
    (lambdaRegistryUnregister r id).1.directory val = (r.directory val).withdraw id.toNat := by
  apply Directory.ext_look
  · rw [next_directory, Directory.next_withdraw, next_directory, lambdaRegistryUnregister_counter]
  · intro i _
    rw [(lambdaRegistryUnregister_wf h id).look_directory, Directory.look_withdraw,
      lambdaRegistryUnregister_slot h]
    split_ifs
    · rfl
    · rw [h.look_directory]

theorem WF.directory_free (h : r.WF) :
    (freeLambdaRegistry r).directory val = Directory.empty := by
  rw [h.free_eq, directory_empty]

theorem directory_init :
    (initLambdaRegistry r).directory val = (r.directory val).withdrawAll := by
  apply Directory.ext_look
  · rw [Directory.next_withdrawAll, next_directory, next_directory]
    rfl
  · intro i _
    rw [WF.init.look_directory, Directory.look_withdrawAll]
    simp [slot, initLambdaRegistry]

/-- The lookup by id reads the directory. -/
theorem WF.getById_directory (h : r.WF) (val : RsRegisteredLambda α → ν) (id : LambdaId) :
    (getRegisteredLambdaById r id).map (fun l => (l.text, val l)) =
      (r.directory val).look id.toNat := by
  rw [h.getById, h.look_directory]

/-- The lookup by name fails exactly on the keys that the directory does not have. -/
theorem WF.getByName_isNone_iff_directory (h : r.WF) (val : RsRegisteredLambda α → ν)
    (name : List UInt8) :
    (getRegisteredLambdaByName r name).isNone ↔ ¬ (r.directory val).Has (cstr name) := by
  rw [h.getByName_isNone_iff]
  constructor
  · rintro hn ⟨i, v, hi⟩
    obtain ⟨l, hl, ht, -⟩ := h.look_eq_some.mp hi
    exact hn i l hl ht
  · intro hhas i l hl ht
    exact hhas ⟨i, val l, h.look_eq_some.mpr ⟨l, hl, ht, rfl⟩⟩

/-- A record found by name stands in the directory under its id. -/
theorem WF.look_of_getByName (h : r.WF) {name : List UInt8} {l : RsRegisteredLambda α}
    (hl : getRegisteredLambdaByName r name = some l) :
    (r.directory val).look l.id.toNat = some (cstr name, val l) := by
  obtain ⟨hslot, ht⟩ := h.of_getByName hl
  exact h.look_eq_some.mpr ⟨l, hslot, ht, rfl⟩

end Registry

end RS
