/-
Rounding to an integer.

The four roundings of the format differ in the integer that they go to and in nothing else. All
four go to one of the two integers next to the number, and these are numbers of the format, so no
second rounding follows. What is left to say of each is which of the two it takes. Here that is
said without the function that finds it: the least integer above, the greatest below, the last
on the way from zero, the nearest with ties to the even one. Each rational has exactly one such
integer (`Direction.isReached_iff`).

The sign of the operand is kept, although the integer may be zero and then has no sign to keep it
by. That makes the rest come out bit for bit. An integer is the integer it is rounded to, so to
round twice is to round once; and a change of sign takes the integers above to those below, so the
ceiling is the floor seen from the other side.
-/
import WasmExec.Proofs.Floating.Bits
import WasmExec.Proofs.Floating.Demotion

set_option autoImplicit false

namespace WasmExec

namespace Floating

/-! ## Directions -/

/-- **Which integer a rounding goes to.** -/
inductive Direction where
  | up
  | down
  | towardZero
  | toNearest
deriving DecidableEq

namespace Direction

/-- The instruction that rounds in a direction. -/
def op : Direction → FloatUnary
  | .up => .ceil
  | .down => .floor
  | .towardZero => .trunc
  | .toNearest => .nearest

/-- **The integer of a direction**, by what it is. Of all integers the nearest one is closer to
the rational, or as close if it is even. -/
def IsReached : Direction → Rat → Int → Prop
  | .up, q, n => IsLeast {k : Int | q ≤ k} n
  | .down, q, n => IsGreatest {k : Int | (k : Rat) ≤ q} n
  | .towardZero, q, n => IsIntegerPart q n
  | .toNearest, q, n =>
    ∀ k : Int, k ≠ n →
      |(n : Rat) - q| < |(k : Rat) - q| ∨ |(n : Rat) - q| = |(k : Rat) - q| ∧ n % 2 = 0

/-- The integer of a direction as the library finds it. -/
def integer : Direction → Rat → Int
  | .up => Rat.ceil
  | .down => Rat.floor
  | .towardZero => truncateInt
  | .toNearest => nearestInt

theorem eval_op {w : Width} (d : Direction) (x : Word w) :
    d.op.eval x = roundWith d.integer x := by
  cases d <;> rfl

end Direction

/-! ## The nearest integer -/

theorem isReached_nearestInt (q : Rat) : Direction.toNearest.IsReached q (nearestInt q) := by
  obtain ⟨hhalf, htie⟩ := abs_nearestInt_sub q
  intro k hk
  -- two integers are at least one apart, and only one of them can be within half of that
  have hstep : (1 : Rat) ≤ |(k : Rat) - nearestInt q| := by
    exact_mod_cast Int.one_le_abs (sub_ne_zero.mpr hk)
  have htriangle := abs_sub_le (k : Rat) q (nearestInt q)
  rw [abs_sub_comm q] at htriangle
  obtain hlt | heq | hgt := lt_trichotomy |(nearestInt q : Rat) - q| |(k : Rat) - q|
  · exact .inl hlt
  · exact .inr ⟨heq, htie (by linarith)⟩
  · linarith

/-- Two integers that are nearest would be equally near and both even, with one between them. -/
theorem eq_of_isReached_toNearest {q : Rat} {m n : Int} (hm : Direction.toNearest.IsReached q m)
    (hn : Direction.toNearest.IsReached q n) : m = n := by
  wlog hlt : m < n generalizing m n
  · by_contra hne
    exact hne (this hn hm (by omega)).symm
  have hcast : (m : Rat) < n := by exact_mod_cast hlt
  have hequal : |(m : Rat) - q| = |(n : Rat) - q| := by
    obtain h | ⟨h, -⟩ := hm n hlt.ne'
    · obtain h' | ⟨h', -⟩ := hn m hlt.ne
      · exact absurd h' h.not_gt
      · exact h'.symm
    · exact h
  have hmeven : m % 2 = 0 := ((hm n hlt.ne').resolve_left hequal.not_lt).2
  have hneven : n % 2 = 0 := ((hn m hlt.ne).resolve_left hequal.not_gt).2
  -- the rational is the middle, so the integer after the lesser one is not farther from it
  have hmiddle := (abs_sub_le_iff_middle' hcast).mp hequal.ge
  have hnext : |(m : Rat) - q| ≤ |((m + 1 : Int) : Rat) - q| :=
    (hm (m + 1) (by omega)).elim le_of_lt fun h => h.1.le
  rw [abs_sub_le_iff_middle (by push_cast; linarith)] at hnext
  push_cast at hnext
  have hle : (n : Rat) ≤ m + 1 := by linarith
  have hint : n ≤ m + 1 := by exact_mod_cast hle
  omega

/-! ## One integer in each direction -/

namespace Direction

theorem isReached_integer (d : Direction) (q : Rat) : d.IsReached q (d.integer q) := by
  cases d with
  | up => exact ⟨Rat.le_ceil, fun k hk => Rat.ceil_le_iff.mpr hk⟩
  | down => exact ⟨Rat.floor_le q, fun k hk => Rat.le_floor_iff.mpr hk⟩
  | towardZero => exact isIntegerPart_truncateInt q
  | toNearest => exact isReached_nearestInt q

/-- **Every rational has exactly one integer in each direction.** -/
theorem isReached_iff (d : Direction) (q : Rat) (n : Int) :
    d.IsReached q n ↔ n = d.integer q := by
  constructor
  · intro h
    have hinteger := d.isReached_integer q
    cases d with
    | up => exact h.unique hinteger
    | down => exact h.unique hinteger
    | towardZero => exact h.eq_truncateInt
    | toNearest => exact eq_of_isReached_toNearest h hinteger
  · rintro rfl
    exact d.isReached_integer q

/-- All directions go to one of the two integers next to a rational. -/
theorem floor_le_integer (d : Direction) (q : Rat) : q.floor ≤ d.integer q := by
  cases d with
  | up => exact_mod_cast (Rat.floor_le q).trans Rat.le_ceil
  | down => exact le_rfl
  | towardZero => exact floor_le_truncateInt q
  | toNearest => exact le_nearestInt (Rat.floor_le q)

theorem integer_le_ceil (d : Direction) (q : Rat) : d.integer q ≤ q.ceil := by
  cases d with
  | up => exact le_rfl
  | down => exact_mod_cast (Rat.floor_le q).trans Rat.le_ceil
  | towardZero => exact truncateInt_le_ceil q
  | toNearest => exact nearestInt_le Rat.le_ceil

/-- An integer is rounded to itself. -/
theorem integer_intCast (d : Direction) (n : Int) : d.integer (n : Rat) = n := by
  apply le_antisymm
  · simpa using d.integer_le_ceil (n : Rat)
  · simpa using d.floor_le_integer (n : Rat)

end Direction

/-- The integers above are those below, seen from the other side of zero. -/
theorem ceil_eq_neg_floor_neg (q : Rat) : q.ceil = -(-q).floor := by
  have hfloor := Rat.floor_le (-q)
  have hceil := Rat.le_ceil (x := q)
  apply le_antisymm
  · rw [Rat.ceil_le_iff]
    push_cast
    linarith
  · rw [neg_le, Rat.le_floor_iff]
    push_cast
    linarith

/-! ## Words -/

section

variable {w : Width} {x : Word w} {s : Bool} {q : Rat}

/-- A word is known by its number. -/
theorem interchange_eq_finite_iff (h : decode x = .finite s q) (y : Word w) :
    interchange y = .finite s q ↔ y = x := by
  rw [← decode_eq_interchange]
  constructor
  · intro hy
    rw [← eq_ofRat_of_decode hy, eq_ofRat_of_decode h]
  · rintro rfl
    exact h

theorem roundWith_of_isNaN (f : Rat → Int) (h : isNaN x = true) : roundWith f x = quiet x := by
  rw [roundWith, decode_of_isNaN h]

theorem roundWith_of_infinite (f : Rat → Int) (h : decode x = .infinite s) :
    roundWith f x = x := by
  rw [roundWith, h]

theorem decode_round (d : Direction) (h : decode x = .finite s q) :
    decode (roundWith d.integer x) = .finite s (d.integer q) :=
  decode_roundWith d.floor_le_integer d.integer_le_ceil h

/-- **To round twice is to round once.** -/
theorem round_round (d : Direction) (x : Word w) :
    roundWith d.integer (roundWith d.integer x) = roundWith d.integer x := by
  cases hx : decode x with
  | nan =>
    rw [← isNaN_iff_decode] at hx
    rw [roundWith_of_isNaN _ hx, roundWith_of_isNaN _ (isNaN_quiet hx), quiet_quiet]
  | infinite s => rw [roundWith_of_infinite _ hx, roundWith_of_infinite _ hx]
  | finite s q =>
    have honce := decode_round d hx
    have htwice := decode_round d honce
    rw [d.integer_intCast] at htwice
    rw [← eq_ofRat_of_decode htwice, eq_ofRat_of_decode honce]

/-- **The ceiling is the floor seen from the other side of zero.** -/
theorem neg_floor_neg (x : Word w) : neg (floor (neg x)) = ceil x := by
  have hopposite := decode_neg x
  cases hx : decode x with
  | nan =>
    rw [← isNaN_iff_decode] at hx
    rw [floor, ceil, roundWith_of_isNaN _ hx, roundWith_of_isNaN _ (by rwa [isNaN_neg]), quiet_neg,
      neg_neg]
  | infinite s =>
    rw [hx] at hopposite
    rw [floor, ceil, roundWith_of_infinite _ hx, roundWith_of_infinite _ hopposite, neg_neg]
  | finite s q =>
    rw [hx] at hopposite
    have hfloor : decode (floor (neg x)) = .finite (!s) ((-q).floor : Int) :=
      decode_round .down hopposite
    have hceil : decode (ceil x) = .finite s (q.ceil : Int) := decode_round .up hx
    have hneg := decode_neg (floor (neg x))
    rw [hfloor, Number.neg, Bool.not_not, ← Int.cast_neg, ← ceil_eq_neg_floor_neg] at hneg
    rw [← eq_ofRat_of_decode hneg, eq_ofRat_of_decode hceil]

/-- A number is between its floor and its ceiling. -/
theorem floor_le_ceil (h : isNaN x = false) :
    le (floor x) x = true ∧ le x (ceil x) = true := by
  rw [le_iff, le_iff]
  obtain ⟨hnan, -⟩ | ⟨-, -, hx⟩ | ⟨-, -, hx⟩ := decode_cases x
  · rw [hnan] at h
    cases h
  · rw [floor, ceil, roundWith_of_infinite _ hx, roundWith_of_infinite _ hx]
    exact ⟨⟨h, h, le_rfl⟩, h, h, le_rfl⟩
  · obtain ⟨-, hfloor, -, hbelow⟩ := value_of_finite (decode_round .down hx)
    obtain ⟨-, hceil, -, habove⟩ := value_of_finite (decode_round .up hx)
    refine ⟨⟨hfloor, h, ?_⟩, h, hceil, ?_⟩
    · exact hbelow.trans_le (Rat.floor_le _)
    · exact Rat.le_ceil.trans_eq habove.symm

/-- **Dropping the fraction first changes no conversion to an integer**, and no trap. -/
theorem truncate_trunc (target : Width) (sign : Signedness) (x : Word w) :
    truncate target sign (trunc x) = truncate target sign x := by
  cases hx : decode x with
  | nan =>
    have hquiet : decode (trunc x) = .nan := by
      rw [← isNaN_iff_decode] at hx
      rw [trunc, roundWith_of_isNaN _ hx, decode_of_isNaN (isNaN_quiet hx)]
    rw [(truncate_of_nan target sign hx).1, (truncate_of_nan target sign hquiet).1]
  | infinite s => rw [trunc, roundWith_of_infinite _ hx]
  | finite s q =>
    have hinteger : decode (trunc x) = .finite s (truncateInt q) := decode_round .towardZero hx
    rw [truncate_of_finite target sign hx, truncate_of_finite target sign hinteger,
      truncateInt_intCast]

end

end Floating

/-! ## The instructions -/

namespace NumOp

open Floating (interchange Direction)

/-- **The roundings are exact.** A finite word is rounded to the one word that has the integer of
the direction, with the sign that the operand has. An infinity is returned as it is. Rounding
twice changes nothing more. The ceiling is the floor between two changes of sign, a number is
between its floor and its ceiling, and a conversion to an integer gives the same before and after
the fraction is dropped. -/
theorem rounding_exact (w : Width) :
    let unary := fun op (x : Word w) => (NumOp.floatUnary w op).apply [.float w x]
    let compare := fun op (x y : Word w) => (NumOp.floatCompare w op).apply [.float w x, .float w y]
    (∀ (d : Direction) x, ∃ y, unary d.op x = .ok (.float w y) ∧ unary d.op y = .ok (.float w y)
        ∧ match interchange x with
          | .nan => interchange y = .nan
          | .infinite _ => y = x
          | .finite negative q => ∃ n : Int, (∀ k, d.IsReached q k ↔ k = n)
            ∧ ∀ z : Word w, interchange z = .finite negative n ↔ z = y)
      ∧ (∀ x, ∃ y z, unary .neg x = .ok (.float w y) ∧ unary .floor y = .ok (.float w z)
        ∧ unary .neg z = unary .ceil x)
      ∧ (∀ x, interchange x ≠ .nan →
        ∃ y z, unary .floor x = .ok (.float w y) ∧ unary .ceil x = .ok (.float w z)
          ∧ compare .le y x = .ok (.int .w32 1) ∧ compare .le x z = .ok (.int .w32 1))
      ∧ ∀ target sign x, ∃ y, unary .trunc x = .ok y
        ∧ (NumOp.convert (.truncate w target sign false)).apply [y]
          = (NumOp.convert (.truncate w target sign false)).apply [.float w x] := by
  intro unary compare
  have hunary : ∀ op x, unary op x = .ok (.float w (op.eval x)) := apply_floatUnary w
  refine ⟨fun d x => ⟨_, hunary d.op x, ?_, ?_⟩,
    fun x => ⟨_, _, hunary .neg x, hunary .floor _, ?_⟩,
    fun x hx => ⟨_, _, hunary .floor x, hunary .ceil x, ?_⟩,
    fun target sign x => ⟨_, hunary .trunc x, ?_⟩⟩
  · rw [hunary, d.eval_op, d.eval_op, Floating.round_round]
  · rw [← Floating.decode_eq_interchange, d.eval_op]
    cases hx : Floating.decode x with
    | nan =>
      rw [← Floating.isNaN_iff_decode] at hx
      rw [Floating.roundWith_of_isNaN _ hx]
      exact (Floating.isNaN_iff_interchange _).mp (Floating.isNaN_quiet hx)
    | infinite s => exact Floating.roundWith_of_infinite _ hx
    | finite s q =>
      exact ⟨d.integer q, d.isReached_iff q,
        Floating.interchange_eq_finite_iff (Floating.decode_round d hx)⟩
  · rw [hunary, hunary, Except.ok.injEq, Value.float.injEq]
    exact ⟨rfl, heq_of_eq (Floating.neg_floor_neg x)⟩
  · have hbetween := Floating.floor_le_ceil ((Floating.interchange_ne_nan_iff x).mp hx)
    exact ⟨(apply_floatCompare_iff w .le _ _).mpr hbetween.1,
      (apply_floatCompare_iff w .le _ _).mpr hbetween.2⟩
  · rw [apply_truncate, apply_truncate]
    exact congrArg _ (Floating.truncate_trunc target sign x)

/-- Half below zero: three of the directions go to the zero of its sign, and the fourth to minus
one, which stays where it is. -/
theorem rounding_exact_half :
    interchange (w := .w32) 0xbf000000#32 ≠ .nan
      ∧ (∀ op ∈ [FloatUnary.ceil, .trunc, .nearest],
        (NumOp.floatUnary .w32 op).apply [.float .w32 0xbf000000#32]
          = .ok (.float .w32 0x80000000#32))
      ∧ (NumOp.floatUnary .w32 .floor).apply [.float .w32 0xbf000000#32]
        = .ok (.float .w32 0xbf800000#32)
      ∧ (NumOp.floatCompare .w32 .le).apply [.float .w32 0xbf800000#32, .float .w32 0xbf000000#32]
        = .ok (.int .w32 1)
      ∧ (NumOp.floatUnary .w32 .floor).apply [.float .w32 0xbf800000#32]
        = .ok (.float .w32 0xbf800000#32) := by
  obtain ⟨hround, -, hbetween, -⟩ := rounding_exact .w32
  have hnumber : interchange (w := .w32) 0xbf000000#32 ≠ .nan :=
    (Floating.interchange_ne_nan_iff _).mpr (by decide)
  have hzero : ∀ op ∈ [FloatUnary.ceil, .trunc, .nearest],
      (NumOp.floatUnary .w32 op).apply [.float .w32 0xbf000000#32]
        = .ok (.float .w32 0x80000000#32) := by decide +kernel
  have hfloor : (NumOp.floatUnary .w32 .floor).apply [.float .w32 0xbf000000#32]
      = .ok (.float .w32 0xbf800000#32) := by decide +kernel
  refine ⟨hnumber, hzero, hfloor, ?_, ?_⟩
  · obtain ⟨y, z, hy, -, hle, -⟩ := hbetween _ hnumber
    obtain rfl : 0xbf800000#32 = y := by simpa using hfloor.symm.trans hy
    exact hle
  · obtain ⟨y, hy, hagain, -⟩ := hround .down 0xbf000000#32
    obtain rfl : 0xbf800000#32 = y := by simpa using hfloor.symm.trans hy
    exact hagain

end NumOp

end WasmExec
