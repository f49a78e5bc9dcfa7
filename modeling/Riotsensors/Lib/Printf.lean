import Riotsensors.Lib.Binary64
import Riotsensors.Lib.Numerals

/-! `printf` for the directives `%u`, `%d`, `%s` and `%f`. -/

namespace Printf

open CMem Numerals

inductive Arg where
  | unsigned (n : ℕ)
  | signed (i : ℤ)
  | string (mem : List UInt8)
  | double (x : UInt64)

/-- What `%f` writes for the magnitude with the pattern `n`: six places, to nearest with ties
to even. -/
def fixedMag (n : ℕ) : List UInt8 :=
  if 2047 * 2 ^ 52 < n then [110, 97, 110]
  else if n = 2047 * 2 ^ 52 then [105, 110, 102]
  else
    let millionths := (Binary64.rne (Binary64.decodeMag n * 10 ^ 6)).toNat
    let places := decimal (millionths % 10 ^ 6)
    decimal (millionths / 10 ^ 6) ++ 46 :: (List.replicate (6 - places.length) 48 ++ places)

/-- What `%f` writes. -/
def fixed (x : UInt64) : List UInt8 :=
  (if Binary64.neg x then [45] else []) ++ fixedMag (Binary64.mag x)

/-- A directive takes the next argument; one without an argument of its kind is left as it
stands. -/
def printf : List UInt8 → List Arg → List UInt8
  | [], _ => []
  | 37 :: 117 :: format, .unsigned n :: args => decimal n ++ printf format args
  | 37 :: 100 :: format, .signed i :: args => integer i ++ printf format args
  | 37 :: 115 :: format, .string mem :: args => cstr mem ++ printf format args
  | 37 :: 102 :: format, .double x :: args => fixed x ++ printf format args
  | c :: format, args => c :: printf format args

/-- `sprintf(obj, format, …)` -/
def sprintf (obj format : List UInt8) (args : List Arg) : Option (List UInt8) :=
  poke obj 0 (printf format args ++ [0])

theorem isText_append {s t : List UInt8} (hs : IsText s) (ht : IsText t) : IsText (s ++ t) := by
  intro b hb
  exact (List.mem_append.mp hb).elim (hs b) (ht b)

theorem isText_fixed (x : UInt64) : IsText (fixed x) := by
  have hdecimal := fun n => isText_of_digits (all_isdigit_decimal n)
  have hzeros : ∀ n, IsText (List.replicate n 48) := by
    intro n b hb
    rw [List.eq_of_mem_replicate hb]
    decide
  refine isText_append (by split_ifs <;> decide) ?_
  simp only [fixedMag]
  split_ifs
  · decide
  · decide
  · refine isText_append (hdecimal _) (List.forall_mem_cons.mpr ⟨by decide, ?_⟩)
    exact isText_append (hzeros _) (hdecimal _)

/-- What is printed holds no NUL if the format does not. -/
theorem isText_printf {format : List UInt8} (h : IsText format) (args : List Arg) :
    IsText (printf format args) := by
  fun_induction printf format args with
  | case1 => exact h
  | case2 format n args ih =>
    refine isText_append (isText_of_digits (all_isdigit_decimal n)) (ih fun b hb => h b ?_)
    simp [hb]
  | case3 format i args ih =>
    refine isText_append (isText_integer i) (ih fun b hb => h b ?_)
    simp [hb]
  | case4 format mem args ih =>
    refine isText_append (cstr_isText mem) (ih fun b hb => h b ?_)
    simp [hb]
  | case5 format x args ih =>
    refine isText_append (isText_fixed x) (ih fun b hb => h b ?_)
    simp [hb]
  | case6 c format args _ _ _ _ ih =>
    obtain ⟨hc, hformat⟩ := List.forall_mem_cons.mp h
    exact List.forall_mem_cons.mpr ⟨hc, ih hformat⟩

theorem sprintf_eq_none {obj format : List UInt8} {args : List Arg} :
    sprintf obj format args = none ↔ obj.length ≤ (printf format args).length := by
  rw [sprintf, poke_eq_none, List.length_append, List.length_singleton]
  omega

/-- The text stands in the object, which is as long as before. -/
theorem sprintf_spec {obj format : List UInt8} {args : List Arg} (hformat : IsText format)
    (h : (printf format args).length < obj.length) :
    ∃ obj', sprintf obj format args = some obj' ∧ obj'.length = obj.length ∧
      cstr obj' = printf format args :=
  poke_text (isText_printf hformat args) h

example : fixed 0x4005BF0A8B145769 = [50, 46, 55, 49, 56, 50, 56, 50] := by decide +kernel

end Printf
