import GoTuf.Go.Elliptic

/-!
# Keys, interface values and the cryptographic primitives

Signers take their key as an `interface{}` and switch on its dynamic type; the key decoder hands
its result back the same way. This module models those interface values, the `crypto/ecdsa`
key structs, and the primitives of the standard library that the package only calls (hashing,
ECDSA and Ed25519 signing and verification, Ed25519 key derivation). The primitives are the
fields of a `Crypto` record, so that every result holds for each implementation of them, and
the results that need them correct say so in a hypothesis. The primitives always answer, as the
standard library's do on the NIST curves; the results about panics are stated for keys on those
curves (`KeyValue.OnNistCurve`).
-/

namespace GoTuf

open Elliptic

inductive Hash
  | SHA256
  | SHA384
  deriving DecidableEq, Repr

def Reader : Type := Nat -> UInt8

/-- `ecdsa.PublicKey`; `Curve` is `none` when the interface is unset. -/
structure EcdsaPublicKey where
  Curve : Option CurveParams
  X : Nat
  Y : Nat
  deriving DecidableEq, Repr

structure EcdsaPrivateKey where
  PublicKey : EcdsaPublicKey
  D : Nat
  deriving DecidableEq, Repr

/-- A value of type `interface{}` as the signers and the key decoder see it: untyped `nil`, a
key type of the standard library by value or by pointer (`none` is a nil pointer), or a value of
any other dynamic type, known by its name. -/
inductive KeyValue
  | nil
  | ed25519PrivateKey (k : Bytes)
  | ed25519PrivateKeyRef (k : Option Bytes)
  | ed25519PublicKey (k : Bytes)
  | ed25519PublicKeyRef (k : Option Bytes)
  | ecdsaPrivateKey (k : EcdsaPrivateKey)
  | ecdsaPrivateKeyRef (k : Option EcdsaPrivateKey)
  | ecdsaPublicKey (k : EcdsaPublicKey)
  | ecdsaPublicKeyRef (k : Option EcdsaPublicKey)
  | other (typeName : String)
  deriving DecidableEq, Repr

def KeyValue.typeName : KeyValue -> String
  | .nil => "<nil>"
  | .ed25519PrivateKey _ => "ed25519.PrivateKey"
  | .ed25519PrivateKeyRef _ => "*ed25519.PrivateKey"
  | .ed25519PublicKey _ => "ed25519.PublicKey"
  | .ed25519PublicKeyRef _ => "*ed25519.PublicKey"
  | .ecdsaPrivateKey _ => "ecdsa.PrivateKey"
  | .ecdsaPrivateKeyRef _ => "*ecdsa.PrivateKey"
  | .ecdsaPublicKey _ => "ecdsa.PublicKey"
  | .ecdsaPublicKeyRef _ => "*ecdsa.PublicKey"
  | .other t => t

/-- A private key valid on `curve`: set on the curve, with a scalar in `[1, N)` whose multiple
of the base point is its public point. -/
def EcdsaPrivateKey.ValidOn (k : EcdsaPrivateKey) (curve : CurveParams) : Prop :=
  k.PublicKey.Curve = some curve ∧ 0 < k.D ∧ k.D < curve.N ∧
    curve.ScalarBaseMult (bigEndian curve.byteLen k.D) = (k.PublicKey.X, k.PublicKey.Y)

namespace KeyValue

def HoldsEd25519Private (key : KeyValue) (k : Bytes) : Prop :=
  key = .ed25519PrivateKey k ∨ key = .ed25519PrivateKeyRef (some k)

def HoldsEd25519Public (key : KeyValue) (k : Bytes) : Prop :=
  key = .ed25519PublicKey k ∨ key = .ed25519PublicKeyRef (some k)

def HoldsEcdsaPrivate (key : KeyValue) (k : EcdsaPrivateKey) : Prop :=
  key = .ecdsaPrivateKey k ∨ key = .ecdsaPrivateKeyRef (some k)

def HoldsEcdsaPublic (key : KeyValue) (k : EcdsaPublicKey) : Prop :=
  key = .ecdsaPublicKey k ∨ key = .ecdsaPublicKeyRef (some k)

theorem HoldsEd25519Private.unique {key : KeyValue} {a b : Bytes} (ha : key.HoldsEd25519Private a)
    (hb : key.HoldsEd25519Private b) : a = b := by
  rcases ha with rfl | rfl <;> rcases hb with h | h <;> cases h <;> rfl

theorem HoldsEd25519Public.unique {key : KeyValue} {a b : Bytes} (ha : key.HoldsEd25519Public a)
    (hb : key.HoldsEd25519Public b) : a = b := by
  rcases ha with rfl | rfl <;> rcases hb with h | h <;> cases h <;> rfl

theorem HoldsEcdsaPrivate.unique {key : KeyValue} {a b : EcdsaPrivateKey}
    (ha : key.HoldsEcdsaPrivate a) (hb : key.HoldsEcdsaPrivate b) : a = b := by
  rcases ha with rfl | rfl <;> rcases hb with h | h <;> cases h <;> rfl

theorem HoldsEcdsaPublic.unique {key : KeyValue} {a b : EcdsaPublicKey}
    (ha : key.HoldsEcdsaPublic a) (hb : key.HoldsEcdsaPublic b) : a = b := by
  rcases ha with rfl | rfl <;> rcases hb with h | h <;> cases h <;> rfl

end KeyValue

namespace ed25519

def PrivateKeySize : Nat := 64

def PublicKeySize : Nat := 32

end ed25519

/-- The primitives of the standard library that the package calls. -/
structure Crypto where
  /-- `rand.Reader`. -/
  randReader : Reader
  /-- `h.Available()`. -/
  hashAvailable : Hash -> Bool
  /-- `h.New()`, written the message and summed. -/
  hashSum : Hash -> Bytes -> Bytes
  /-- `ecdsa.Sign(rand, priv, digest)`: `r` and `s`, or `none` for its error. -/
  ecdsaSign : Reader -> EcdsaPrivateKey -> Bytes -> Option (Nat × Nat)
  /-- `ecdsa.Verify(pub, digest, r, s)`, which answers without panicking on the curves of
  `KeyValue.OnNistCurve`. -/
  ecdsaVerify : EcdsaPublicKey -> Bytes -> Nat -> Nat -> Bool
  /-- `PrivateKey.Sign(rand, msg, crypto.Hash(0))` on a 64-byte key, pure Ed25519, which
  cannot fail. -/
  ed25519Sign : Bytes -> Bytes -> Bytes
  /-- `ed25519.Verify(pub, msg, sig)` on a 32-byte public key. -/
  ed25519Verify : Bytes -> Bytes -> Bytes -> Bool
  /-- The public key `ed25519.GenerateKey` derives from a 32-byte seed. -/
  ed25519Public : Bytes -> Bytes
  /-- `isEdLowOrder` of package `key`: the blacklist of low-order Ed25519 points. -/
  isEdLowOrder : Bytes -> Bool

namespace Crypto

variable (c : Crypto)

/-- `ed25519.GenerateKey(bytes.NewReader(b))`: the public key of the seed read from `b`, or the
error of `io.ReadFull` when `b` is shorter than a seed. -/
def generateKey (b : Bytes) : Except GoError Bytes :=
  if 32 ≤ b.length then .ok (c.ed25519Public (b.take 32))
  else if b = [] then .error (.sentinel .eof)
  else .error (.sentinel .unexpectedEOF)

/-- A deterministic stand-in for the primitives, at which results with hypotheses on them are
instantiated: hashing is the identity, every ECDSA signature is `(1, 1)`, an Ed25519 seed is
its own public key and a signature is the private key, and no point is blacklisted. -/
def reference : Crypto where
  randReader := fun _ => 0
  hashAvailable := fun _ => true
  hashSum := fun _ msg => msg
  ecdsaSign := fun _ _ _ => some (1, 1)
  ecdsaVerify := fun _ _ r s => r == 1 && s == 1
  ed25519Sign := fun priv _ => priv
  ed25519Verify := fun pub _ sig => sig.drop 32 == pub
  ed25519Public := fun seed => seed
  isEdLowOrder := fun _ => false

/-- What the primitives promise, and all that signing then verifying assumes of them: the
public key of an Ed25519 seed has 32 bytes, and the key pair's signature has 64 and verifies
under it; an ECDSA signature by a valid key of P-256 or P-384 has `r` and `s` in `[1, N)` and
verifies under the key's public half. -/
structure Correct (c : Crypto) : Prop where
  ed25519 : ∀ seed msg, seed.length = 32 ->
    (c.ed25519Public seed).length = 32 ∧
      (c.ed25519Sign (seed ++ c.ed25519Public seed) msg).length = 64 ∧
      c.ed25519Verify (c.ed25519Public seed) msg
        (c.ed25519Sign (seed ++ c.ed25519Public seed) msg) = true
  ecdsa : ∀ curve, (curve = P256 ∨ curve = P384) -> ∀ k : EcdsaPrivateKey, k.ValidOn curve ->
    ∀ rand digest r s, c.ecdsaSign rand k digest = some (r, s) ->
      (0 < r ∧ r < curve.N) ∧ (0 < s ∧ s < curve.N) ∧ c.ecdsaVerify k.PublicKey digest r s = true

theorem reference_Correct : reference.Correct where
  ed25519 seed msg h := by
    refine ⟨h, by simp [reference, h], ?_⟩
    simp [reference, List.drop_left' h]
  ecdsa curve hcurve k _ rand digest r s h := by
    simp only [reference, Option.some.injEq, Prod.mk.injEq] at h
    obtain ⟨rfl, rfl⟩ := h
    have : 1 < curve.N := by rcases hcurve with rfl | rfl <;> decide
    simp [reference, this]

theorem generateKey_of_le {b : Bytes} (h : 32 ≤ b.length) :
    c.generateKey b = .ok (c.ed25519Public (b.take 32)) :=
  if_pos h

end Crypto

end GoTuf
