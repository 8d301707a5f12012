import GoTuf.Go.BigInt
import Mathlib.Tactic.Ring

/-!
# NIST curves of `crypto/elliptic`

The key decoder reads ECDSA public points with `elliptic.Unmarshal` and
`elliptic.UnmarshalCompressed`, checks them with `IsOnCurve`, and recomputes the public point
of a private scalar with `ScalarBaseMult`. This module models the four functions on the curves
`y² = x³ - 3x + b` of `crypto/elliptic`, over natural numbers reduced modulo `P`, with the
parameters of P-256 and P-384.
-/

namespace GoTuf
namespace Elliptic

structure CurveParams where
  P : Nat
  N : Nat
  B : Nat
  Gx : Nat
  Gy : Nat
  BitSize : Nat
  Name : String
  deriving DecidableEq, Repr

def P256 : CurveParams where
  P := 0xffffffff00000001000000000000000000000000ffffffffffffffffffffffff
  N := 0xffffffff00000000ffffffffffffffffbce6faada7179e84f3b9cac2fc632551
  B := 0x5ac635d8aa3a93e7b3ebbd55769886bc651d06b0cc53b0f63bce3c3e27d2604b
  Gx := 0x6b17d1f2e12c4247f8bce6e563a440f277037d812deb33a0f4a13945d898c296
  Gy := 0x4fe342e2fe1a7f9b8ee7eb4a7c0f9e162bce33576b315ececbb6406837bf51f5
  BitSize := 256
  Name := "P-256"

def P384 : CurveParams where
  P := 0xfffffffffffffffffffffffffffffffffffffffffffffffffffffffffffffffeffffffff0000000000000000ffffffff
  N := 0xffffffffffffffffffffffffffffffffffffffffffffffffc7634d81f4372ddf581a0db248b0a77aecec196accc52973
  B := 0xb3312fa7e23ee7e4988e056be3f82d19181d9c6efe8141120314088f5013875ac656398d8a2ed19d2a85c8edd3ec2aef
  Gx := 0xaa87ca22be8b05378eb1c71ef320ad746e1d3b628ba79b9859f741e082542a385502f25dbf55296c3a545e3872760ab7
  Gy := 0x3617de4a96262c6f5d9e98bf9292dc29f8f41dbd289a147ce9da3113b5f0b8c00a60b1ce1d7e819d7a431d7c90ea0e5f
  BitSize := 384
  Name := "P-384"

inductive Point
  | infinity
  | affine (x y : Nat)
  deriving DecidableEq, Repr

def Point.toAffine : Point -> Nat × Nat
  | .infinity => (0, 0)
  | .affine x y => (x, y)

def powMod (m : Nat) : Nat -> Nat -> Nat -> Nat
  | 0, _, _ => 1 % m
  | n + 1, b, e =>
      let h := powMod m n (b * b % m) (e / 2)
      if e % 2 = 1 then b * h % m else h

namespace CurveParams

variable (c : CurveParams)

def byteLen : Nat := (c.BitSize + 7) / 8

def polynomial (x : Nat) : Nat :=
  (x ^ 3 + 3 * (c.P - x % c.P) + c.B) % c.P

/-- `IsOnCurve`: both coordinates are reduced and satisfy the curve equation. -/
def IsOnCurve (x y : Nat) : Bool :=
  x < c.P && y < c.P && y * y % c.P == c.polynomial x

def inv (a : Nat) : Nat := powMod c.P c.BitSize a (c.P - 2)

def sqrt (a : Nat) : Option Nat :=
  let r := powMod c.P c.BitSize a ((c.P + 1) / 4)
  if r * r % c.P = a % c.P then some r else none

def double : Point -> Point
  | .infinity => .infinity
  | .affine x y =>
      if y = 0 then .infinity
      else
        let l := (3 * (x * x % c.P) + (c.P - 3)) * c.inv (2 * y % c.P) % c.P
        let x3 := (l * l + 2 * (c.P - x)) % c.P
        .affine x3 ((l * (x + c.P - x3) + (c.P - y)) % c.P)

def add : Point -> Point -> Point
  | .infinity, q => q
  | .affine x y, .infinity => .affine x y
  | .affine x1 y1, .affine x2 y2 =>
      if x1 = x2 then
        if y1 = y2 then c.double (.affine x1 y1) else .infinity
      else
        let l := (y2 + c.P - y1) * c.inv (x2 + c.P - x1) % c.P
        let x3 := (l * l + 2 * c.P - x1 - x2) % c.P
        .affine x3 ((l * (x1 + c.P - x3) + (c.P - y1)) % c.P)

def scalarMult (p : Point) : Nat -> Nat -> Point
  | 0, _ => .infinity
  | n + 1, k =>
      let q := c.double (scalarMult p n (k / 2))
      if k % 2 = 1 then c.add q p else q

/-- `ScalarBaseMult(k)`: the big-endian scalar is reduced modulo `N`, as the implementations
of `crypto/internal/nistec` do, and multiplied onto the base point. -/
def ScalarBaseMult (k : Bytes) : Nat × Nat :=
  (c.scalarMult (.affine c.Gx c.Gy) c.BitSize (setBytes k % c.N)).toAffine

/-- `elliptic.Unmarshal`: an uncompressed point `4 ‖ x ‖ y` of the curve, or `nil`. -/
def Unmarshal : Bytes -> Option (Nat × Nat)
  | 4 :: rest =>
      if rest.length = 2 * c.byteLen then
        let x := setBytes (rest.take c.byteLen)
        let y := setBytes (rest.drop c.byteLen)
        if c.IsOnCurve x y then some (x, y) else none
      else none
  | _ => none

/-- `elliptic.Marshal`: the uncompressed encoding `4 ‖ x ‖ y`. -/
def Marshal (x y : Nat) : Bytes :=
  4 :: (bigEndian c.byteLen x ++ bigEndian c.byteLen y)

/-- `elliptic.UnmarshalCompressed`: a compressed point `2 ‖ x` or `3 ‖ x`, whose tag gives the
parity of `y`, or `nil`. -/
def UnmarshalCompressed : Bytes -> Option (Nat × Nat)
  | [] => none
  | t :: rest =>
      if (t = 2 ∨ t = 3) ∧ rest.length = c.byteLen ∧ setBytes rest < c.P then
        match c.sqrt (c.polynomial (setBytes rest)) with
        | some y =>
            some (setBytes rest, if y % 2 = t.toNat % 2 then y else (c.P - y) % c.P)
        | none => none
      else none

end CurveParams

/-!
## Scalar multiplication
-/

namespace CurveParams

variable (c : CurveParams)

@[simp] theorem double_infinity : c.double .infinity = .infinity := rfl

@[simp] theorem add_infinity_left (q : Point) : c.add .infinity q = q := rfl

theorem scalarMult_zero (p : Point) (n : Nat) : c.scalarMult p n 0 = .infinity := by
  induction n with
  | zero => rfl
  | succ n ih => simp [scalarMult, ih]

theorem scalarMult_one (p : Point) (n : Nat) : c.scalarMult p (n + 1) 1 = p := by
  simp [scalarMult, scalarMult_zero]

theorem ScalarBaseMult_of_mod_eq_zero {k : Bytes} (h : setBytes k % c.N = 0) :
    c.ScalarBaseMult k = (0, 0) := by
  rw [ScalarBaseMult, h, scalarMult_zero]
  rfl

theorem ScalarBaseMult_of_mod_eq_one {k : Bytes} (h : setBytes k % c.N = 1) (hb : 0 < c.BitSize) :
    c.ScalarBaseMult k = (c.Gx, c.Gy) := by
  obtain ⟨n, hn⟩ : exists n, c.BitSize = n + 1 := ⟨c.BitSize - 1, by omega⟩
  rw [ScalarBaseMult, h, hn, scalarMult_one]
  rfl

theorem Unmarshal_IsOnCurve {data : Bytes} {x y : Nat} (h : c.Unmarshal data = some (x, y)) :
    c.IsOnCurve x y = true := by
  unfold Unmarshal at h
  split at h
  · simp only at h
    split_ifs at h with h1 h2
    obtain ⟨rfl, rfl⟩ := Prod.mk.inj (Option.some.inj h)
    exact h2
  · cases h

theorem IsOnCurve_lt {x y : Nat} (h : c.IsOnCurve x y = true) : x < c.P ∧ y < c.P := by
  simp only [IsOnCurve, Bool.and_eq_true, decide_eq_true_eq] at h
  exact h.1

theorem Unmarshal_Marshal {x y : Nat} (h : c.IsOnCurve x y = true) (hP : c.P ≤ 256 ^ c.byteLen) :
    c.Unmarshal (c.Marshal x y) = some (x, y) := by
  have hx : x < 256 ^ c.byteLen := (c.IsOnCurve_lt h).1.trans_le hP
  have hy : y < 256 ^ c.byteLen := (c.IsOnCurve_lt h).2.trans_le hP
  simp [Unmarshal, Marshal, setBytes_bigEndian hx, setBytes_bigEndian hy, h]
  omega

end CurveParams

/-!
## Decoded points lie on the curve

`Unmarshal` checks the point it reads with `IsOnCurve`. `UnmarshalCompressed` does not, and needs
not: the `y` it returns is a square root of the curve polynomial at `x`, or that root's negation,
which squares to the same residue.
-/

theorem powMod_lt {m : Nat} (hm : 0 < m) (n b e : Nat) : powMod m n b e < m := by
  induction n generalizing b e with
  | zero => exact Nat.mod_lt _ hm
  | succ n ih =>
      simp only [powMod]
      split
      · exact Nat.mod_lt _ hm
      · exact ih _ _

theorem sub_mul_sub_mod {P r : Nat} (hr : r ≤ P) : (P - r) * (P - r) % P = r * r % P := by
  obtain ⟨s, rfl⟩ : ∃ s, P = s + r := ⟨P - r, by omega⟩
  have key : s * s + (s + r) * (2 * r) = r * r + (s + r) * (s + r) := by ring
  rw [Nat.add_sub_cancel, ← Nat.add_mul_mod_self_left (s * s) (s + r) (2 * r), key,
    Nat.add_mul_mod_self_left]

namespace CurveParams

variable (c : CurveParams)

theorem sqrt_spec {a r : Nat} (hP : 0 < c.P) (h : c.sqrt a = some r) :
    r < c.P ∧ r * r % c.P = a % c.P := by
  unfold sqrt at h
  by_cases hr : powMod c.P c.BitSize a ((c.P + 1) / 4) *
      powMod c.P c.BitSize a ((c.P + 1) / 4) % c.P = a % c.P
  · rw [if_pos hr, Option.some.injEq] at h
    subst h
    exact ⟨powMod_lt hP _ _ _, hr⟩
  · rw [if_neg hr] at h
    cases h

theorem UnmarshalCompressed_IsOnCurve {data : Bytes} {x y : Nat} (hP : 0 < c.P)
    (h : c.UnmarshalCompressed data = some (x, y)) : c.IsOnCurve x y = true := by
  cases data with
  | nil => cases h
  | cons t rest =>
    simp only [UnmarshalCompressed] at h
    by_cases hg : (t = 2 ∨ t = 3) ∧ rest.length = c.byteLen ∧ setBytes rest < c.P
    · rw [if_pos hg] at h
      split at h
      · rename_i r hr
        obtain ⟨hrP, hsq⟩ := c.sqrt_spec hP hr
        obtain ⟨rfl, rfl⟩ := Prod.mk.inj (Option.some.inj h)
        have hpoly : c.polynomial (setBytes rest) % c.P = c.polynomial (setBytes rest) :=
          Nat.mod_eq_of_lt (Nat.mod_lt _ hP)
        have hy : ∀ y, y = r ∨ y = (c.P - r) % c.P → y < c.P ∧ y * y % c.P = r * r % c.P := by
          rintro y (rfl | rfl)
          · exact ⟨hrP, rfl⟩
          · exact ⟨Nat.mod_lt _ hP, by rw [← Nat.mul_mod, sub_mul_sub_mod hrP.le]⟩
        obtain ⟨hylt, hysq⟩ := hy _ (ite_eq_or_eq (r % 2 = t.toNat % 2) _ _)
        simp only [IsOnCurve, Bool.and_eq_true, decide_eq_true_eq, beq_iff_eq]
        exact ⟨⟨hg.2.2, hylt⟩, by rw [hysq, hsq, hpoly]⟩
      · cases h
    · rw [if_neg hg] at h
      cases h

end CurveParams

theorem P256_P_le : P256.P ≤ 256 ^ P256.byteLen := by decide

theorem P256_IsOnCurve_zero : P256.IsOnCurve 0 0 = false := by decide

theorem P256_IsOnCurve_base : P256.IsOnCurve P256.Gx P256.Gy = true := by decide

end Elliptic
end GoTuf
