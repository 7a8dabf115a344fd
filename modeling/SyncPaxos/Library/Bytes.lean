import Mathlib.Algebra.Order.Ring.Nat
import Mathlib.Control.Monad.Basic

/-!
# Bytes — numbers in a buffer, and readers

`write k n` is the number `n` in `k` bytes, least significant first, and `read k` takes such a
number off the front of a buffer.  A `Reader` is a computation that takes bytes off a buffer; it
fails when the buffer ends too early.

`run_bind_read` is the rule for a reader that meets a number written for it: it goes on with this
number, behind it.
-/

namespace Bytes

abbrev Buffer := List UInt8

/-- A computation that takes bytes off the front of a buffer. -/
abbrev Reader (α : Type) := StateT Buffer Option α

/-- The low `k` bytes of `n`, least significant first. -/
def write : ℕ → ℕ → Buffer
  | 0, _ => []
  | k + 1, n => UInt8.ofNat n :: write k (n / 256)

def readByte : Reader ℕ := fun buffer =>
  match buffer with
  | [] => none
  | b :: rest => some (b.toNat, rest)

/-- A number of `k` bytes, least significant first. -/
def read : ℕ → Reader ℕ
  | 0 => pure 0
  | k + 1 => do
      let low ← readByte
      let high ← read k
      pure (low + 256 * high)

@[simp] theorem length_write (k n : ℕ) : (write k n).length = k := by
  induction k generalizing n with
  | zero =>
      rfl
  | succ k ih =>
      simp [write, ih]

theorem run_readByte (b : UInt8) (rest : Buffer) :
    readByte.run (b :: rest) = some (b.toNat, rest) := rfl

/-- What was written is read back, up to the bytes that follow it. -/
theorem run_read {k n : ℕ} (h : n < 256 ^ k) (rest : Buffer) :
    (read k).run (write k n ++ rest) = some (n, rest) := by
  induction k generalizing n with
  | zero =>
      obtain rfl : n = 0 := by simpa using h
      rfl
  | succ k ih =>
      have hhigh : n / 256 < 256 ^ k := by
        apply Nat.div_lt_of_lt_mul
        rwa [pow_succ, mul_comm] at h
      have hlow : (UInt8.ofNat n).toNat = n % 256 := UInt8.toNat_ofNat'
      simp only [read, write, List.cons_append, StateT.run_bind, run_readByte, Option.bind_eq_bind,
        Option.bind_some, ih hhigh, StateT.run_pure, Option.pure_def, hlow]
      rw [Nat.mod_add_div]

/-- A reader that meets a number written for it goes on behind the number. -/
theorem run_bind_read {α : Type} {k n : ℕ} (h : n < 256 ^ k) (f : ℕ → Reader α) (rest : Buffer) :
    (read k >>= f).run (write k n ++ rest) = (f n).run rest := by
  rw [StateT.run_bind, run_read h]
  rfl

/-- A computation that reads nothing. -/
theorem run_bind_lift {α β : Type} (x : Option α) (f : α → Reader β) (buffer : Buffer) :
    ((liftM x : Reader α) >>= f).run buffer = x.bind (fun a => (f a).run buffer) := by
  cases x <;> rfl

end Bytes
