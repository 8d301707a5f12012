import GoTuf.Go.Runtime
import Mathlib.Algebra.Order.Group.Nat

/-!
# Big-endian byte strings of `math/big` integers

`big.Int.SetBytes` reads a byte slice as a big-endian unsigned integer, and
`big.Int.FillBytes` writes an integer into a fixed-size buffer, zero-extended on the left,
panicking when it does not fit. The fixed-width ECDSA signature encoding is built from these
two functions, so their round-trip laws are proved here once.
-/

namespace GoTuf

theorem UInt8.toNat_lt_256 (b : UInt8) : b.toNat < 256 := b.toNat_lt_size

/-- `new(big.Int).SetBytes(buf)`: the big-endian unsigned value of `buf`. -/
def setBytes : Bytes -> Nat
  | [] => 0
  | b :: bs => b.toNat * 256 ^ bs.length + setBytes bs

def bigEndian : Nat -> Nat -> Bytes
  | 0, _ => []
  | k + 1, x => UInt8.ofNat (x / 256 ^ k) :: bigEndian k (x % 256 ^ k)

/-- `x.FillBytes(buf)` for a buffer of `k` bytes; `none` is its panic when `x` does not fit. -/
def fillBytes (k x : Nat) : Option Bytes :=
  if x < 256 ^ k then some (bigEndian k x) else none

def fillBytesPanic : String := "math/big: buffer too small to fit value"

@[simp] theorem setBytes_nil : setBytes [] = 0 := rfl

@[simp] theorem setBytes_cons (b : UInt8) (bs : Bytes) :
    setBytes (b :: bs) = b.toNat * 256 ^ bs.length + setBytes bs := rfl

@[simp] theorem bigEndian_zero (x : Nat) : bigEndian 0 x = [] := rfl

@[simp] theorem bigEndian_succ (k x : Nat) :
    bigEndian (k + 1) x = UInt8.ofNat (x / 256 ^ k) :: bigEndian k (x % 256 ^ k) := rfl

@[simp] theorem length_bigEndian (k x : Nat) : (bigEndian k x).length = k := by
  induction k generalizing x with
  | zero => rfl
  | succ k ih => simp [ih]

theorem setBytes_lt (bs : Bytes) : setBytes bs < 256 ^ bs.length := by
  induction bs with
  | nil => simp
  | cons b bs ih =>
      have hb := UInt8.toNat_lt_256 b
      have hstep : b.toNat * 256 ^ bs.length + 256 ^ bs.length ≤ 256 ^ (bs.length + 1) := by
        rw [pow_succ, ← Nat.succ_mul, Nat.mul_comm]
        exact Nat.mul_le_mul_left _ hb
      simp only [setBytes_cons, List.length_cons]
      omega

theorem setBytes_bigEndian {k x : Nat} (h : x < 256 ^ k) : setBytes (bigEndian k x) = x := by
  induction k generalizing x with
  | zero => simp_all
  | succ k ih =>
      have hpos : 0 < 256 ^ k := Nat.pos_pow_of_pos k (by decide)
      have hdiv : x / 256 ^ k < 256 := by
        rw [Nat.div_lt_iff_lt_mul hpos, ← pow_succ']
        exact h
      simp only [bigEndian_succ, setBytes_cons, length_bigEndian, UInt8.toNat_ofNat_of_lt hdiv,
        ih (Nat.mod_lt x hpos)]
      exact Nat.div_add_mod' x (256 ^ k)

theorem bigEndian_setBytes (bs : Bytes) : bigEndian bs.length (setBytes bs) = bs := by
  induction bs with
  | nil => rfl
  | cons b bs ih =>
      have hlt := setBytes_lt bs
      have hpos : 0 < 256 ^ bs.length := Nat.pos_pow_of_pos _ (by decide)
      have hdiv : (b.toNat * 256 ^ bs.length + setBytes bs) / 256 ^ bs.length = b.toNat := by
        rw [Nat.add_comm, Nat.add_mul_div_right _ _ hpos, Nat.div_eq_of_lt hlt, Nat.zero_add]
      have hmod : (b.toNat * 256 ^ bs.length + setBytes bs) % 256 ^ bs.length = setBytes bs := by
        rw [Nat.add_comm, Nat.add_mul_mod_self_right, Nat.mod_eq_of_lt hlt]
      simp only [List.length_cons, bigEndian_succ, setBytes_cons, hdiv, hmod, ih]
      congr 1
      exact UInt8.toNat.inj (UInt8.toNat_ofNat_of_lt b.toNat_lt_size)

theorem fillBytes_of_lt {k x : Nat} (h : x < 256 ^ k) : fillBytes k x = some (bigEndian k x) :=
  if_pos h

theorem fillBytes_eq_some {k x : Nat} {bs : Bytes} (h : fillBytes k x = some bs) :
    x < 256 ^ k ∧ bs = bigEndian k x := by
  unfold fillBytes at h
  split at h
  · exact ⟨‹_›, (Option.some.inj h).symm⟩
  · cases h

theorem setBytes_inj {a b : Bytes} (hlen : a.length = b.length) (h : setBytes a = setBytes b) :
    a = b := by
  rw [← bigEndian_setBytes a, ← bigEndian_setBytes b, hlen, h]

end GoTuf
