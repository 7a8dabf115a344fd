import Mathlib.Data.Nat.Size
import Mathlib.Tactic.Ring

/-!
# Rounding — natural numbers in `p` binary digits

`roundNearest p n` is `n` rounded to `p` significant bits, to nearest and ties to even, as the
conversion of a decimal text to a binary floating-point number does for an integer in its range.
`Representable p n` says that `n` has a significand of `p` bits.

The main result is `roundNearest_eq_self_iff`: exactly the representable numbers are left as they
are.
-/

namespace Rounding

/-- A significand of `p` bits, scaled by a power of two. -/
def Representable (p n : ℕ) : Prop := ∃ m e, m < 2 ^ p ∧ n = m * 2 ^ e

/-- The nearest multiple of `unit`, counted in units; a tie goes to the even one. -/
def nearest (unit n : ℕ) : ℕ :=
  if 2 * (n % unit) < unit then n / unit
  else if unit < 2 * (n % unit) then n / unit + 1
  else n / unit + n / unit % 2

/-- Round to `p` significant bits. -/
def roundNearest (p n : ℕ) : ℕ :=
  nearest (2 ^ (n.size - p)) n * 2 ^ (n.size - p)

theorem nearest_le (unit n : ℕ) : nearest unit n ≤ n / unit + 1 := by
  unfold nearest
  split
  · exact Nat.le_succ _
  · split
    · exact le_rfl
    · exact Nat.add_le_add_left (Nat.lt_succ_iff.1 (Nat.mod_lt _ (by decide))) _

/-- A multiple of the unit is its own nearest. -/
theorem nearest_mul {unit : ℕ} (hunit : 0 < unit) (q : ℕ) : nearest unit (q * unit) = q := by
  have hmod : q * unit % unit = 0 := Nat.mul_mod_left q unit
  have hdiv : q * unit / unit = q := Nat.mul_div_cancel q hunit
  unfold nearest
  rw [hmod, hdiv]
  exact if_pos hunit

/-- A number of at most `p` bits is representable. -/
theorem representable_of_lt {p n : ℕ} (h : n < 2 ^ p) : Representable p n :=
  ⟨n, 0, h, by rw [pow_zero, mul_one]⟩

/-- A significand of `2 ^ p` is as good as one of one bit. -/
theorem representable_of_le {p m e : ℕ} (hp : 0 < p) (h : m ≤ 2 ^ p) :
    Representable p (m * 2 ^ e) := by
  rcases h.lt_or_eq with hlt | rfl
  · exact ⟨m, e, hlt, rfl⟩
  · refine ⟨1, p + e, Nat.one_lt_two_pow hp.ne', ?_⟩
    rw [one_mul, pow_add]

/-- A representable number is a multiple of the unit to which it is rounded. -/
theorem Representable.dvd {p n : ℕ} (h : Representable p n) : 2 ^ (n.size - p) ∣ n := by
  rcases h with ⟨m, e, hm, rfl⟩
  have hsize : (m * 2 ^ e).size ≤ p + e := by
    apply Nat.size_le.2
    calc m * 2 ^ e < 2 ^ p * 2 ^ e := Nat.mul_lt_mul_of_pos_right hm (Nat.two_pow_pos e)
      _ = 2 ^ (p + e) := (pow_add 2 p e).symm
  have hle : (m * 2 ^ e).size - p ≤ e := Nat.sub_le_iff_le_add'.2 hsize
  exact (pow_dvd_pow 2 hle).trans (Dvd.intro_left m rfl)

/-- What rounding returns is representable. -/
theorem representable_roundNearest {p : ℕ} (hp : 0 < p) (n : ℕ) :
    Representable p (roundNearest p n) := by
  by_cases hbits : n.size ≤ p
  · -- Nothing is cut off.
    have hself : roundNearest p n = n := by
      have hmul := nearest_mul Nat.one_pos n
      rw [mul_one] at hmul
      rw [roundNearest, Nat.sub_eq_zero_of_le hbits, pow_zero, hmul, mul_one]
    rw [hself]
    exact representable_of_lt (Nat.size_le.1 hbits)
  · -- The quotient has `p` bits, and is at most `2 ^ p` after the carry.
    apply representable_of_le hp
    have hsplit : n.size = p + (n.size - p) := (Nat.add_sub_of_le (Nat.le_of_not_le hbits)).symm
    have hquot : n / 2 ^ (n.size - p) < 2 ^ p := by
      apply Nat.div_lt_of_lt_mul
      calc n < 2 ^ n.size := Nat.lt_size_self n
        _ = 2 ^ (p + (n.size - p)) := congrArg (2 ^ ·) hsplit
        _ = 2 ^ (n.size - p) * 2 ^ p := by rw [pow_add, mul_comm]
    exact (nearest_le _ n).trans hquot

/-- Rounding leaves exactly the representable numbers as they are. -/
theorem roundNearest_eq_self_iff {p n : ℕ} (hp : 0 < p) :
    roundNearest p n = n ↔ Representable p n := by
  constructor
  · intro hself
    rw [← hself]
    exact representable_roundNearest hp n
  · intro hrep
    rcases hrep.dvd with ⟨q, hq⟩
    have hmul : n = q * 2 ^ (n.size - p) := by rw [mul_comm, ← hq]
    calc roundNearest p n
        = nearest (2 ^ (n.size - p)) (q * 2 ^ (n.size - p)) * 2 ^ (n.size - p) := by
          rw [roundNearest, ← hmul]
      _ = q * 2 ^ (n.size - p) := by rw [nearest_mul (Nat.two_pow_pos _)]
      _ = n := hmul.symm

instance (p n : ℕ) [NeZero p] : Decidable (Representable p n) :=
  decidable_of_iff (roundNearest p n = n) (roundNearest_eq_self_iff (NeZero.pos p))

end Rounding
