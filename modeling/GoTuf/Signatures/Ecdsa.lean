import GoTuf.Signatures.Api

/-!
# The ECDSA signer

`ecdsaSigner` signs the hash of the message with `ecdsa.Sign` and writes `r ‖ s` as two
big-endian integers of `⌈curveBits / 8⌉` bytes each; `Verify` reads them back from the two halves
of a signature of `2 * keySize` bytes. This module models both methods with every check and
error they make, and proves the fixed-width codec a bijection on signatures of that length.
-/

namespace GoTuf
namespace Signatures

open Elliptic

structure ecdsaSigner where
  name : String
  hash : Hash
  curveBits : Nat
  keySize : Nat
  deriving DecidableEq, Repr

/-- The length `Sign` gives each integer: `curveBits / 8`, plus one for a partial byte. -/
def keyBytesOf (curveBits : Nat) : Nat :=
  curveBits / 8 + if curveBits % 8 > 0 then 1 else 0

/-- `r.FillBytes(out[0:keyBytes])` and `s.FillBytes(out[keyBytes:])`; `none` is the panic of
`FillBytes` on an integer that does not fit. -/
def encodeSignature (keyBytes r s : Nat) : Option Bytes :=
  match fillBytes keyBytes r, fillBytes keyBytes s with
  | some rb, some sb => some (rb ++ sb)
  | _, _ => none

/-- `SetBytes(signature[:keySize])` and `SetBytes(signature[keySize:])`. -/
def decodeSignature (keySize : Nat) (sig : Bytes) : Nat × Nat :=
  (setBytes (sig.take keySize), setBytes (sig.drop keySize))

namespace ecdsaSigner

variable (m : ecdsaSigner) (c : Crypto)

def Name : String := m.name

/-- `Sign` from the curve check on, once the type switch has found the private key `pk`. -/
def signWithKey (msg : Bytes) (pk : EcdsaPrivateKey) (opts : List SignOption) : Outcome Bytes :=
  match pk.PublicKey.Curve with
  | none => .panic nilDereference
  | some params =>
      if m.curveBits ≠ params.BitSize then
        .error (wrapSentinel
          "ecdsa: can't use the provided key with this signer instance, curve mismatch: "
          .invalidKey)
      else
        let dopts := applySignOptions c opts
        if !c.hashAvailable m.hash then .error (.sentinel .hashUnavailable)
        else
          match c.ecdsaSign dopts.randSource pk (c.hashSum m.hash msg) with
          | some (r, s) =>
              match encodeSignature (keyBytesOf params.BitSize) r s with
              | some out => .ok out
              | none => .panic fillBytesPanic
          | none => .error (.sentinel .invalidSignature)

def Sign (msg : Bytes) (key : KeyValue) (opts : List SignOption) : Outcome Bytes :=
  if msg.length = 0 then
    .error (wrapSentinel "ecdsa: provided msg is nil or empty: " .invalidArgument)
  else if key = .nil then
    .error (wrapSentinel "ecdsa: provided key is nil: " .invalidKey)
  else
    match key with
    | .ecdsaPrivateKey pk | .ecdsaPrivateKeyRef (some pk) => m.signWithKey c msg pk opts
    | .ecdsaPrivateKeyRef none => .panic nilDereference
    | _ =>
        .error (wrapSentinel ("ecdsa: unsupported private key type (" ++ key.typeName ++ "): ")
          .invalidKey)

/-- `Verify` from the curve check on, once the type switch has found the public key `pub`. -/
def verifyWithKey (msg signature : Bytes) (pub : EcdsaPublicKey) : Outcome Unit :=
  match pub.Curve with
  | none => .panic nilDereference
  | some params =>
      if m.curveBits ≠ params.BitSize then
        .error (wrapSentinel
          "ecdsa: can't use the provided key with this signer instance, curve mismatch: "
          .invalidKey)
      else if signature.length ≠ 2 * m.keySize then
        .error (wrapSentinel "ecdsa: invalid signature length: " .invalidSignature)
      else
        let rs := decodeSignature m.keySize signature
        if !c.hashAvailable m.hash then .error (.sentinel .hashUnavailable)
        else if c.ecdsaVerify pub (c.hashSum m.hash msg) rs.1 rs.2 then .ok ()
        else .error (.sentinel .invalidSignature)

/-- `Verify(msg, signature, key)`; `ok ()` is a nil error. -/
def Verify (msg signature : Bytes) (key : KeyValue) : Outcome Unit :=
  if msg.length = 0 then
    .error (wrapSentinel "ecdsa: provided msg is nil or empty: " .invalidArgument)
  else if signature.length = 0 then
    .error (wrapSentinel "ecdsa: provided signature is nil or empty: " .invalidArgument)
  else if key = .nil then
    .error (wrapSentinel "ecdsa: provided key is nil: " .invalidKey)
  else
    match key with
    | .ecdsaPublicKey pub | .ecdsaPublicKeyRef (some pub) => m.verifyWithKey c msg signature pub
    | .ecdsaPublicKeyRef none => .panic nilDereference
    | _ =>
        .error (wrapSentinel ("ecdsa: unsupported public key type (" ++ key.typeName ++ "): ")
          .invalidKey)

/-!
## What each method does with a key of its type
-/

variable {m c} {msg signature : Bytes} {key : KeyValue} {opts : List SignOption}

theorem Sign_of_HoldsEcdsaPrivate {pk : EcdsaPrivateKey} (hmsg : msg ≠ [])
    (hk : key.HoldsEcdsaPrivate pk) : m.Sign c msg key opts = m.signWithKey c msg pk opts := by
  rcases hk with rfl | rfl <;> simp [Sign, hmsg]

theorem Verify_of_HoldsEcdsaPublic {pub : EcdsaPublicKey} (hmsg : msg ≠ []) (hsig : signature ≠ [])
    (hk : key.HoldsEcdsaPublic pub) :
    m.Verify c msg signature key = m.verifyWithKey c msg signature pub := by
  rcases hk with rfl | rfl <;> simp [Verify, hmsg, hsig]

theorem Sign_eq_ok {out : Bytes} (h : m.Sign c msg key opts = .ok out) :
    ∃ pk, msg ≠ [] ∧ key.HoldsEcdsaPrivate pk ∧ m.signWithKey c msg pk opts = .ok out := by
  unfold Sign at h
  split_ifs at h with h1 h2
  split at h
  · exact ⟨_, by simpa using h1, .inl rfl, h⟩
  · exact ⟨_, by simpa using h1, .inr rfl, h⟩
  all_goals cases h

theorem signWithKey_eq_ok {pk : EcdsaPrivateKey} {out : Bytes}
    (h : m.signWithKey c msg pk opts = .ok out) :
    ∃ params r s, pk.PublicKey.Curve = some params ∧ m.curveBits = params.BitSize ∧
      c.hashAvailable m.hash = true ∧
      c.ecdsaSign (applySignOptions c opts).randSource pk (c.hashSum m.hash msg) = some (r, s) ∧
      encodeSignature (keyBytesOf params.BitSize) r s = some out := by
  unfold signWithKey at h
  split at h
  · cases h
  rename_i params hc
  simp only [ne_eq, ite_not, Bool.not_eq_true'] at h
  split_ifs at h with h1 h2
  split at h
  · rename_i r s hs
    split at h
    · cases h
      exact ⟨params, r, s, hc, h1, by simpa using h2, hs, ‹_›⟩
    · cases h
  · cases h

theorem Verify_eq_ok (h : m.Verify c msg signature key = .ok ()) :
    ∃ pub, msg ≠ [] ∧ signature ≠ [] ∧ key.HoldsEcdsaPublic pub ∧
      m.verifyWithKey c msg signature pub = .ok () := by
  unfold Verify at h
  split_ifs at h with h1 h2 h3
  split at h
  · exact ⟨_, by simpa using h1, by simpa using h2, .inl rfl, h⟩
  · exact ⟨_, by simpa using h1, by simpa using h2, .inr rfl, h⟩
  all_goals cases h

theorem verifyWithKey_eq_ok {pub : EcdsaPublicKey} (h : m.verifyWithKey c msg signature pub = .ok ()) :
    ∃ params, pub.Curve = some params ∧ m.curveBits = params.BitSize ∧
      signature.length = 2 * m.keySize ∧ c.hashAvailable m.hash = true ∧
      c.ecdsaVerify pub (c.hashSum m.hash msg) (decodeSignature m.keySize signature).1
        (decodeSignature m.keySize signature).2 = true := by
  unfold verifyWithKey at h
  split at h
  · cases h
  rename_i params hc
  simp only [ne_eq, ite_not, Bool.not_eq_true'] at h
  split_ifs at h with h1 h2 h3 h4
  exact ⟨params, hc, h1, h2, by simpa using h3, h4⟩

end ecdsaSigner

/-!
## The fixed-width signature codec
-/

theorem encodeSignature_of_lt {k r s : Nat} (hr : r < 256 ^ k) (hs : s < 256 ^ k) :
    encodeSignature k r s = some (bigEndian k r ++ bigEndian k s) := by
  simp [encodeSignature, fillBytes_of_lt hr, fillBytes_of_lt hs]

theorem encodeSignature_eq_some {k r s : Nat} {out : Bytes} (h : encodeSignature k r s = some out) :
    r < 256 ^ k ∧ s < 256 ^ k ∧ out = bigEndian k r ++ bigEndian k s := by
  unfold encodeSignature at h
  split at h
  · rename_i rb sb hrb hsb
    obtain ⟨hr, rfl⟩ := fillBytes_eq_some hrb
    obtain ⟨hs, rfl⟩ := fillBytes_eq_some hsb
    exact ⟨hr, hs, (Option.some.inj h).symm⟩
  · cases h

theorem decodeSignature_append {k : Nat} {a b : Bytes} (ha : a.length = k) :
    decodeSignature k (a ++ b) = (setBytes a, setBytes b) := by
  subst ha
  simp [decodeSignature]

theorem decodeSignature_encodeSignature {k r s : Nat} (hr : r < 256 ^ k) (hs : s < 256 ^ k) :
    (encodeSignature k r s).map (decodeSignature k) = some (r, s) := by
  rw [encodeSignature_of_lt hr hs, Option.map_some',
    decodeSignature_append (length_bigEndian k r), setBytes_bigEndian hr, setBytes_bigEndian hs]

theorem encodeSignature_decodeSignature {k : Nat} {sig : Bytes} (h : sig.length = 2 * k) :
    encodeSignature k (decodeSignature k sig).1 (decodeSignature k sig).2 = some sig := by
  obtain ⟨a, b, rfl, ha, hb⟩ : exists a b, sig = a ++ b ∧ a.length = k ∧ b.length = k :=
    ⟨sig.take k, sig.drop k, (List.take_append_drop k sig).symm, by simp; omega, by simp; omega⟩
  subst ha
  rw [decodeSignature_append rfl, encodeSignature_of_lt (setBytes_lt a) (hb ▸ setBytes_lt b),
    bigEndian_setBytes, ← hb, bigEndian_setBytes]

theorem decodeSignature_injective {k : Nat} {a b : Bytes} (ha : a.length = 2 * k)
    (hb : b.length = 2 * k) (h : decodeSignature k a = decodeSignature k b) : a = b := by
  have := encodeSignature_decodeSignature ha
  rw [h, encodeSignature_decodeSignature hb] at this
  exact (Option.some.inj this).symm

end Signatures
end GoTuf
