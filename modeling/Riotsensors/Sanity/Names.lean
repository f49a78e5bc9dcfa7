import Riotsensors.Sanity.Requests

/-! What the names of a board's lambdas look like: letters and digits, and read on into the type
byte where they fill their field. -/

namespace RS

open CMem

/-- The name leaves room for its terminator in the field. -/
def RsRegisteredLambda.Terminated (l : RsRegisteredLambda FuncPtr) : Prop :=
  strlen l.name < MAX_LAMBDA_NAME_LENGTH

instance (l : RsRegisteredLambda FuncPtr) : Decidable l.Terminated :=
  inferInstanceAs (Decidable (strlen l.name < MAX_LAMBDA_NAME_LENGTH))

/-- What an accepted registration makes of the name: the field holds it, and it is read back
from there unless it fills the field. -/
structure RsRegisteredLambda.Spelled (l : RsRegisteredLambda FuncPtr) : Prop where
  alnum : ∀ c ∈ cstr l.name, isalnum c = true
  typed : ∃ kind : LambdaKind, l.type = kind.type
  text_of_terminated : l.Terminated → l.text = cstr l.name
  text_of_not : ¬ l.Terminated → ∃ rest, l.text = cstr l.name ++ l.type :: rest

theorem spelled_newRecord {name : List UInt8} (hlen : strlen name ≤ MAX_LAMBDA_NAME_LENGTH)
    (halnum : (cstr name).all isalnum) (mem : List UInt8) (id : LambdaId) (kind : LambdaKind)
    (cache : RsCacheType) (lambda : FuncPtr) :
    (newRecord mem id name kind.type cache lambda).Spelled := by
  have hfield : cstr (strcpyField MAX_LAMBDA_NAME_LENGTH mem name) = cstr name := by
    rcases hlen.lt_or_eq with hlt | heq
    · have hread : cstr (strcpyField MAX_LAMBDA_NAME_LENGTH mem name ++ []) = cstr name :=
        cstr_strcpyField_of_lt hlt []
      rwa [List.append_nil] at hread
    · rw [strcpyField_of_eq heq, cstr_of_isText (cstr_isText name)]
  have hstrlen : strlen (strcpyField MAX_LAMBDA_NAME_LENGTH mem name) = strlen name :=
    congrArg List.length hfield
  refine ⟨?_, ⟨kind, rfl⟩, fun hlt => ?_, fun hge => ?_⟩
  · change ∀ c ∈ cstr (strcpyField MAX_LAMBDA_NAME_LENGTH mem name), _
    rw [hfield]
    exact List.all_eq_true.mp halnum
  · change strlen (strcpyField MAX_LAMBDA_NAME_LENGTH mem name) < _ at hlt
    rw [newRecord_text_of_lt (hstrlen ▸ hlt)]
    exact hfield.symm
  · change ¬ strlen (strcpyField MAX_LAMBDA_NAME_LENGTH mem name) < _ at hge
    rw [hstrlen] at hge
    rw [newRecord_text_of_eq (by omega)]
    change ∃ rest, cstr name ++ cstr (kind.type :: cache :: _) =
      cstr (strcpyField MAX_LAMBDA_NAME_LENGTH mem name) ++ kind.type :: rest
    rw [hfield, cstr_cons_of_ne kind.type_ne_zero]
    exact ⟨_, rfl⟩

namespace Board

variable {b b' : Board}

theorem spelled_operate (h : b.Sound) (hs : ∀ i l, b.registry.slot i = some l → l.Spelled)
    {env : Env} {op : BoardOp} {code : Int8} {sent : List Packet}
    (hop : b.operate env op = some (b', code, sent)) :
    ∀ i l, b'.registry.slot i = some l → l.Spelled := by
  rcases h.operate_cases hop with rfl | ⟨mem, name, lambda, kind, cache, hacc, -, rfl⟩ | ⟨id, rfl⟩
  · exact hs
  · intro i l hl
    simp only [Board.pushed, Registry.slot_push hacc.1] at hl
    split_ifs at hl
    · obtain rfl := Option.some.inj hl
      exact spelled_newRecord hacc.2.2.1 hacc.2.2.2.1 mem _ kind cache lambda
    · exact hs i l hl
  · intro i l hl
    simp only [lambdaRegistryUnregister_slot h.wf] at hl
    split_ifs at hl
    exact hs i l hl

/-- The names on every board that operations lead to. -/
theorem spelled_after {started : Bool} {ops : List (Env × BoardOp)}
    (h : Board.after started ops = some b) : ∀ i l, b.registry.slot i = some l → l.Spelled := by
  have hrun : ∀ b, Board.after started ops = some b →
      b.Sound ∧ ∀ i l, b.registry.slot i = some l → l.Spelled := by
    refine @Runs.run_inv_all _ _ _ (fun s => ∀ b : Board, s = some b →
      b.Sound ∧ ∀ i l, b.registry.slot i = some l → l.Spelled) (fun s op hs b' hb' => ?_) _ ops
      (fun b hb => ?_)
    · obtain ⟨b, rfl, hb⟩ := Option.bind_eq_some_iff.mp hb'
      obtain ⟨⟨b'', code, sent⟩, hop, rfl⟩ := Option.map_eq_some_iff.mp hb
      obtain ⟨hsound, hspelled⟩ := hs b rfl
      exact ⟨(hsound.operate hop).1, spelled_operate hsound hspelled hop⟩
    · rw [← Option.some.inj hb]
      refine ⟨Sound.empty started, fun i l hl => ?_⟩
      rw [Registry.slot_empty] at hl
      cases hl
  exact (hrun b h).2

end Board

end RS
