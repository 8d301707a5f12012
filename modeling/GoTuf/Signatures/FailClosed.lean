import GoTuf.Signatures.Registry

/-!
# What the signers accept and reject

`Verify` returns a nil error only when every check passed and the primitive accepted exactly
the inputs it was given. The ECDSA signers bind a key by its curve's bit size, not by the curve
itself. Every error either method returns wraps one of the package's sentinel errors. And the
nil check of both signers misses a typed nil pointer, on which the type switch succeeds and the
next dereference panics, as does a key whose `Curve` is unset: `Verify` panics on exactly these.
The options of `Sign` only choose its source of randomness, and a signature `Verify` rejects
tells the caller nothing beyond its length.
-/

namespace GoTuf
namespace Signatures

open Elliptic

/-!
## `Verify` fails closed
-/

/-- A nil error from `Verify` means a non-empty message, a public key of the algorithm's family
in an accepted form, and acceptance by the primitive of exactly these inputs: for ECDSA a
signature of `2 * keySize` bytes whose halves are `r` and `s`, hashed with the instance's hash,
for Ed25519 a key of 32 bytes. -/
theorem Verify_eq_ok_spec {c : Crypto} {alg : Algorithm} {msg sig : Bytes} {key : KeyValue}
    (h : alg.Verify c msg sig key = .ok ()) :
    msg ≠ [] ∧
      match alg with
      | .ed25519 _ => ∃ pub, key.HoldsEd25519Public pub ∧ pub.length = ed25519.PublicKeySize ∧
          c.ed25519Verify pub msg sig = true
      | .ecdsa m => ∃ pub params, key.HoldsEcdsaPublic pub ∧ pub.Curve = some params ∧
          params.BitSize = m.curveBits ∧ sig.length = 2 * m.keySize ∧
          c.hashAvailable m.hash = true ∧
          c.ecdsaVerify pub (c.hashSum m.hash msg) (setBytes (sig.take m.keySize))
            (setBytes (sig.drop m.keySize)) = true := by
  cases alg with
  | ed25519 _ =>
      obtain ⟨pub, hmsg, hk, hlen, hv⟩ := ed25519Signer.Verify_eq_ok h
      exact ⟨hmsg, pub, hk, hlen, hv⟩
  | ecdsa m =>
      obtain ⟨pub, hmsg, -, hk, hw⟩ := ecdsaSigner.Verify_eq_ok h
      obtain ⟨params, hc, hb, hlen, ha, hv⟩ := ecdsaSigner.verifyWithKey_eq_ok hw
      exact ⟨hmsg, pub, params, hk, hc, hb.symm, hlen, ha, hv⟩

theorem Verify_eq_ok_spec_ed25519_p256 :
    ([(1 : UInt8)] ≠ [] ∧
      ∃ pub, KeyValue.HoldsEd25519Public (.ed25519PublicKey (List.replicate 32 0)) pub ∧
        pub.length = ed25519.PublicKeySize ∧
        Crypto.reference.ed25519Verify pub [1] (List.replicate 64 0) = true) ∧
    ([(1 : UInt8)] ≠ [] ∧
      ∃ pub params, KeyValue.HoldsEcdsaPublic (.ecdsaPublicKey ⟨some P256, P256.Gx, P256.Gy⟩) pub ∧
        pub.Curve = some params ∧ params.BitSize = 256 ∧
        (bigEndian 32 1 ++ bigEndian 32 1).length = 2 * 32 ∧
        Crypto.reference.hashAvailable .SHA256 = true ∧
        Crypto.reference.ecdsaVerify pub (Crypto.reference.hashSum .SHA256 [1])
          (setBytes ((bigEndian 32 1 ++ bigEndian 32 1).take 32))
          (setBytes ((bigEndian 32 1 ++ bigEndian 32 1).drop 32)) = true) :=
  ⟨@Verify_eq_ok_spec Crypto.reference Ed25519 [1] (List.replicate 64 0)
      (.ed25519PublicKey (List.replicate 32 0)) rfl,
    @Verify_eq_ok_spec Crypto.reference ECDSA_P256_SHA256 [1] (bigEndian 32 1 ++ bigEndian 32 1)
      (.ecdsaPublicKey ⟨some P256, P256.Gx, P256.Gy⟩) rfl⟩

/-- `Sign` fails closed as well: a signature comes from a non-empty message, a private key of the
algorithm's family in an accepted form, and the primitive: for ECDSA a key whose curve has the
instance's bit size, the instance's hash, and the fixed-width encoding of the `r` and `s` the
primitive returned; for Ed25519 a key of 64 bytes. -/
theorem Sign_eq_ok_spec {c : Crypto} {alg : Algorithm} {msg : Bytes} {key : KeyValue}
    {opts : List SignOption} {sig : Bytes} (h : alg.Sign c msg key opts = .ok sig) :
    msg ≠ [] ∧
      match alg with
      | .ed25519 _ => ∃ pk, key.HoldsEd25519Private pk ∧ pk.length = ed25519.PrivateKeySize ∧
          sig = c.ed25519Sign pk msg
      | .ecdsa m => ∃ pk params r s, key.HoldsEcdsaPrivate pk ∧ pk.PublicKey.Curve = some params ∧
          params.BitSize = m.curveBits ∧ c.hashAvailable m.hash = true ∧
          c.ecdsaSign (applySignOptions c opts).randSource pk (c.hashSum m.hash msg) = some (r, s) ∧
          encodeSignature (keyBytesOf m.curveBits) r s = some sig := by
  cases alg with
  | ed25519 _ =>
      obtain ⟨pk, hmsg, hk, hlen, rfl⟩ := ed25519Signer.Sign_eq_ok h
      exact ⟨hmsg, pk, hk, hlen, rfl⟩
  | ecdsa m =>
      obtain ⟨pk, hmsg, hk, hw⟩ := ecdsaSigner.Sign_eq_ok h
      obtain ⟨params, r, s, hc, hb, ha, hs, he⟩ := ecdsaSigner.signWithKey_eq_ok hw
      exact ⟨hmsg, pk, params, r, s, hk, hc, hb.symm, ha, hs, hb ▸ he⟩

theorem Sign_eq_ok_spec_ed25519_p256 :
    ([(1 : UInt8)] ≠ [] ∧
      ∃ pk, KeyValue.HoldsEd25519Private (.ed25519PrivateKey (List.replicate 64 0)) pk ∧
        pk.length = ed25519.PrivateKeySize ∧
        List.replicate 64 0 = Crypto.reference.ed25519Sign pk [1]) ∧
    ([(1 : UInt8)] ≠ [] ∧
      ∃ pk params r s,
        KeyValue.HoldsEcdsaPrivate (.ecdsaPrivateKey ⟨⟨some P256, P256.Gx, P256.Gy⟩, 1⟩) pk ∧
        pk.PublicKey.Curve = some params ∧ params.BitSize = 256 ∧
        Crypto.reference.hashAvailable .SHA256 = true ∧
        Crypto.reference.ecdsaSign (applySignOptions Crypto.reference []).randSource pk
          (Crypto.reference.hashSum .SHA256 [1]) = some (r, s) ∧
        encodeSignature (keyBytesOf 256) r s = some (bigEndian 32 1 ++ bigEndian 32 1)) :=
  ⟨@Sign_eq_ok_spec Crypto.reference Ed25519 [1] (.ed25519PrivateKey (List.replicate 64 0)) [] _
      rfl,
    @Sign_eq_ok_spec Crypto.reference ECDSA_P256_SHA256 [1]
      (.ecdsaPrivateKey ⟨⟨some P256, P256.Gx, P256.Gy⟩, 1⟩) [] _ rfl⟩

/-!
## Curve binding by bit size
-/

variable {c : Crypto} {m : ecdsaSigner} {msg sig : Bytes} {opts : List SignOption}

theorem signWithKey_errorIs_invalidKey {pk : EcdsaPrivateKey} {params : CurveParams}
    (hc : pk.PublicKey.Curve = some params) :
    (m.signWithKey c msg pk opts).errorIs .invalidKey = true ↔ params.BitSize ≠ m.curveBits := by
  unfold ecdsaSigner.signWithKey
  rw [hc]
  by_cases hb : m.curveBits = params.BitSize
  · simp only [hb, ne_eq, not_true_eq_false, if_false, iff_false]
    split
    · simp
    · split
      · split <;> simp
      · simp
  · simp [hb, Ne.symm hb]

theorem verifyWithKey_errorIs_invalidKey {pub : EcdsaPublicKey} {params : CurveParams}
    (hc : pub.Curve = some params) :
    (m.verifyWithKey c msg sig pub).errorIs .invalidKey = true ↔ params.BitSize ≠ m.curveBits := by
  unfold ecdsaSigner.verifyWithKey
  rw [hc]
  by_cases hb : m.curveBits = params.BitSize
  · simp only [hb, ne_eq, not_true_eq_false, if_false, iff_false]
    split_ifs <;> simp
  · simp [hb, Ne.symm hb]

theorem signWithKey_errorIs_invalidArgument {pk : EcdsaPrivateKey} :
    (m.signWithKey c msg pk opts).errorIs .invalidArgument = false := by
  unfold ecdsaSigner.signWithKey
  dsimp only
  repeat' split
  all_goals rfl

theorem verifyWithKey_errorIs_invalidArgument {pub : EcdsaPublicKey} :
    (m.verifyWithKey c msg sig pub).errorIs .invalidArgument = false := by
  unfold ecdsaSigner.verifyWithKey
  dsimp only
  repeat' split
  all_goals rfl

/-- An ECDSA signer rejects with `ErrInvalidKey` exactly the keys whose curve has another bit
size than its own: a key of any curve of its bit size passes the check, in `Sign` and in
`Verify` alike. -/
theorem ecdsa_curve_binding (hmsg : msg ≠ []) (hsig : sig ≠ []) :
    (∀ key k params, key.HoldsEcdsaPrivate k -> k.PublicKey.Curve = some params ->
      ((m.Sign c msg key opts).errorIs .invalidKey = true ↔ params.BitSize ≠ m.curveBits)) ∧
    (∀ key pub params, key.HoldsEcdsaPublic pub -> pub.Curve = some params ->
      ((m.Verify c msg sig key).errorIs .invalidKey = true ↔ params.BitSize ≠ m.curveBits)) :=
  ⟨fun _ _ _ hk hc => ecdsaSigner.Sign_of_HoldsEcdsaPrivate hmsg hk ▸
      signWithKey_errorIs_invalidKey hc,
    fun _ _ _ hk hc => ecdsaSigner.Verify_of_HoldsEcdsaPublic hmsg hsig hk ▸
      verifyWithKey_errorIs_invalidKey hc⟩

def secp256k1 : CurveParams where
  P := 0xfffffffffffffffffffffffffffffffffffffffffffffffffffffffefffffc2f
  N := 0xfffffffffffffffffffffffffffffffebaaedce6af48a03bbfd25e8cd0364141
  B := 7
  Gx := 0x79be667ef9dcbbac55a06295ce870b07029bfcdb2dce28d959f2815b16f81798
  Gy := 0x483ada7726a3c4655da4fbfc0e1108a8fd17b448a68554199c47d08ffb10d4b8
  BitSize := 256
  Name := "secp256k1"

/-- The P-256 instance does not reject a key of secp256k1 with `ErrInvalidKey`: its check reads
only the curve's bit size, and the key goes on to `ecdsa.Sign`, whose generic curve arithmetic
then panics in the real code. -/
theorem ECDSA_P256_SHA256_signs_secp256k1 :
    ¬ ∀ (c : Crypto) (k : EcdsaPrivateKey) (msg : Bytes) (opts : List SignOption), msg ≠ [] ->
      k.PublicKey.Curve ≠ some P256 ->
      (ECDSA_P256_SHA256.Sign c msg (.ecdsaPrivateKey k) opts).errorIs .invalidKey = true := by
  intro h
  have := h Crypto.reference ⟨⟨some secp256k1, secp256k1.Gx, secp256k1.Gy⟩, 1⟩ [1] []
    (by decide) (by decide)
  revert this
  decide

theorem ecdsa_curve_binding_p256 :
    (∀ key k params, key.HoldsEcdsaPrivate k -> k.PublicKey.Curve = some params ->
      (((⟨"ecdsa-sha2-nistp256", .SHA256, 256, 32⟩ : ecdsaSigner).Sign Crypto.reference [1] key
        []).errorIs .invalidKey = true ↔ params.BitSize ≠ 256)) ∧
    (∀ key pub params, key.HoldsEcdsaPublic pub -> pub.Curve = some params ->
      (((⟨"ecdsa-sha2-nistp256", .SHA256, 256, 32⟩ : ecdsaSigner).Verify Crypto.reference [1] [1]
        key).errorIs .invalidKey = true ↔ params.BitSize ≠ 256)) :=
  ecdsa_curve_binding (by decide) (by decide)

/-!
## Every error wraps a sentinel
-/

section Arguments

variable {s : Sentinel} (hs : s ∈ argumentSentinels) (c' : Crypto)
include hs

theorem ed25519Signer.signWithKey_argument_error {pk : Bytes}
    (h : (ed25519Signer.signWithKey c msg pk opts).errorIs s = true) :
    ed25519Signer.signWithKey c' msg pk opts = ed25519Signer.signWithKey c msg pk opts := by
  unfold ed25519Signer.signWithKey at h ⊢
  split_ifs at h ⊢
  · rfl
  · simp only [argumentSentinels, List.mem_cons, List.not_mem_nil, or_false] at hs
    rcases hs with rfl | rfl <;> cases h

theorem ed25519Signer.verifyWithKey_argument_error {pub : Bytes}
    (h : (ed25519Signer.verifyWithKey c msg sig pub).errorIs s = true) :
    ed25519Signer.verifyWithKey c' msg sig pub = ed25519Signer.verifyWithKey c msg sig pub := by
  unfold ed25519Signer.verifyWithKey at h ⊢
  split_ifs at h ⊢
  all_goals first
    | rfl
    | simp only [argumentSentinels, List.mem_cons, List.not_mem_nil, or_false] at hs
      rcases hs with rfl | rfl <;> cases h

theorem ecdsaSigner.signWithKey_argument_error {pk : EcdsaPrivateKey}
    (h : (m.signWithKey c msg pk opts).errorIs s = true) :
    m.signWithKey c' msg pk opts = m.signWithKey c msg pk opts := by
  rcases hc : pk.PublicKey.Curve with _ | params
  · simp [ecdsaSigner.signWithKey, hc]
  have hb : params.BitSize ≠ m.curveBits := by
    simp only [argumentSentinels, List.mem_cons, List.not_mem_nil, or_false] at hs
    rcases hs with rfl | rfl
    · exact (signWithKey_errorIs_invalidKey hc).1 h
    · simp [signWithKey_errorIs_invalidArgument] at h
  simp [ecdsaSigner.signWithKey, hc, Ne.symm hb]

theorem ecdsaSigner.verifyWithKey_argument_error {pub : EcdsaPublicKey}
    (h : (m.verifyWithKey c msg sig pub).errorIs s = true) :
    m.verifyWithKey c' msg sig pub = m.verifyWithKey c msg sig pub := by
  rcases hc : pub.Curve with _ | params
  · simp [ecdsaSigner.verifyWithKey, hc]
  have hb : params.BitSize ≠ m.curveBits := by
    simp only [argumentSentinels, List.mem_cons, List.not_mem_nil, or_false] at hs
    rcases hs with rfl | rfl
    · exact (verifyWithKey_errorIs_invalidKey hc).1 h
    · simp [verifyWithKey_errorIs_invalidArgument] at h
  simp [ecdsaSigner.verifyWithKey, hc, Ne.symm hb]

theorem ed25519Signer.Sign_argument_error {key : KeyValue}
    (h : (ed25519Signer.Sign c msg key opts).errorIs s = true) :
    ed25519Signer.Sign c' msg key opts = ed25519Signer.Sign c msg key opts := by
  unfold ed25519Signer.Sign at h ⊢
  split_ifs at h ⊢
  any_goals rfl
  split at h
  all_goals first | rfl | exact ed25519Signer.signWithKey_argument_error hs c' h

theorem ed25519Signer.Verify_argument_error {key : KeyValue}
    (h : (ed25519Signer.Verify c msg sig key).errorIs s = true) :
    ed25519Signer.Verify c' msg sig key = ed25519Signer.Verify c msg sig key := by
  unfold ed25519Signer.Verify at h ⊢
  split_ifs at h ⊢
  any_goals rfl
  split at h
  all_goals first | rfl | exact ed25519Signer.verifyWithKey_argument_error hs c' h

theorem ecdsaSigner.Sign_argument_error {key : KeyValue}
    (h : (m.Sign c msg key opts).errorIs s = true) : m.Sign c' msg key opts = m.Sign c msg key opts := by
  unfold ecdsaSigner.Sign at h ⊢
  split_ifs at h ⊢
  any_goals rfl
  split at h
  all_goals first | rfl | exact ecdsaSigner.signWithKey_argument_error hs c' h

theorem ecdsaSigner.Verify_argument_error {key : KeyValue}
    (h : (m.Verify c msg sig key).errorIs s = true) :
    m.Verify c' msg sig key = m.Verify c msg sig key := by
  unfold ecdsaSigner.Verify at h ⊢
  split_ifs at h ⊢
  any_goals rfl
  split at h
  all_goals first | rfl | exact ecdsaSigner.verifyWithKey_argument_error hs c' h

end Arguments

/-- Every `ErrInvalidKey` and `ErrInvalidArgument` that `Sign` and `Verify` return comes from the
checks on the arguments, made before any primitive is called: with other primitives the call
returns the same. -/
theorem argument_errors_precede_crypto (c c' : Crypto) (alg : Algorithm) {s : Sentinel}
    (hs : s ∈ argumentSentinels) (msg sig : Bytes) (key : KeyValue) (opts : List SignOption) :
    ((alg.Sign c msg key opts).errorIs s = true ->
        alg.Sign c' msg key opts = alg.Sign c msg key opts) ∧
      ((alg.Verify c msg sig key).errorIs s = true ->
        alg.Verify c' msg sig key = alg.Verify c msg sig key) := by
  cases alg
  · exact ⟨ed25519Signer.Sign_argument_error hs c', ed25519Signer.Verify_argument_error hs c'⟩
  · exact ⟨ecdsaSigner.Sign_argument_error hs c', ecdsaSigner.Verify_argument_error hs c'⟩

theorem argument_errors_precede_crypto_nil :
    ((Ed25519.Sign Crypto.reference [1] (.ed25519PublicKey [1]) []).errorIs .invalidKey = true ->
        Ed25519.Sign { Crypto.reference with
            ed25519Sign := fun _ _ => [], ed25519Verify := fun _ _ _ => false }
          [1] (.ed25519PublicKey [1]) [] =
          Ed25519.Sign Crypto.reference [1] (.ed25519PublicKey [1]) []) ∧
      ((Ed25519.Verify Crypto.reference [1] [1] (.ed25519PublicKey [1])).errorIs .invalidKey =
          true ->
        Ed25519.Verify { Crypto.reference with
            ed25519Sign := fun _ _ => [], ed25519Verify := fun _ _ _ => false }
          [1] [1] (.ed25519PublicKey [1]) =
          Ed25519.Verify Crypto.reference [1] [1] (.ed25519PublicKey [1])) :=
  argument_errors_precede_crypto _ _ Ed25519 (by decide) [1] [1] (.ed25519PublicKey [1]) []

/-!
## Typed nil keys
-/

/-- The nil pointer to the private key type an algorithm accepts. -/
def Algorithm.nilPrivateKey : Algorithm -> KeyValue
  | .ed25519 _ => .ed25519PrivateKeyRef none
  | .ecdsa _ => .ecdsaPrivateKeyRef none

/-- The nil pointer to the public key type an algorithm accepts. -/
def Algorithm.nilPublicKey : Algorithm -> KeyValue
  | .ed25519 _ => .ed25519PublicKeyRef none
  | .ecdsa _ => .ecdsaPublicKeyRef none

/-- A nil pointer of the key type an algorithm accepts is not `nil` to the argument check: the
type switch takes it and the dereference after it panics, in `Sign` and in `Verify`. An ECDSA key
whose `Curve` is unset panics at `Curve.Params()` the same way. -/
theorem nil_key_panics (c : Crypto) (alg : Algorithm) (hmsg : msg ≠ []) (hsig : sig ≠ [])
    (opts : List SignOption) :
    alg.Sign c msg alg.nilPrivateKey opts = .panic nilDereference ∧
      alg.Verify c msg sig alg.nilPublicKey = .panic nilDereference ∧
      ∀ m, alg = .ecdsa m -> ∀ x y d,
        alg.Sign c msg (.ecdsaPrivateKey ⟨⟨none, x, y⟩, d⟩) opts = .panic nilDereference ∧
        alg.Verify c msg sig (.ecdsaPublicKey ⟨none, x, y⟩) = .panic nilDereference := by
  cases alg <;>
    simp [Algorithm.Sign, Algorithm.Verify, Algorithm.nilPrivateKey, Algorithm.nilPublicKey,
      ed25519Signer.Sign, ed25519Signer.Verify, ecdsaSigner.Sign, ecdsaSigner.Verify,
      ecdsaSigner.signWithKey, ecdsaSigner.verifyWithKey, hmsg, hsig]

theorem nil_key_panics_ed25519 :
    Ed25519.Sign Crypto.reference [1] Ed25519.nilPrivateKey [] = .panic nilDereference ∧
      Ed25519.Verify Crypto.reference [1] [1] Ed25519.nilPublicKey = .panic nilDereference ∧
      ∀ m, Ed25519 = .ecdsa m -> ∀ x y d,
        Ed25519.Sign Crypto.reference [1] (.ecdsaPrivateKey ⟨⟨none, x, y⟩, d⟩) [] =
          .panic nilDereference ∧
        Ed25519.Verify Crypto.reference [1] [1] (.ecdsaPublicKey ⟨none, x, y⟩) =
          .panic nilDereference :=
  nil_key_panics Crypto.reference Ed25519 (by decide) (by decide) []

theorem ed25519Signer.verifyWithKey_isPanic (c : Crypto) (msg sig pub : Bytes) :
    (ed25519Signer.verifyWithKey c msg sig pub).isPanic = false := by
  unfold ed25519Signer.verifyWithKey
  split_ifs <;> rfl

theorem ecdsaSigner.verifyWithKey_isPanic (m : ecdsaSigner) (c : Crypto) (msg sig : Bytes)
    (pub : EcdsaPublicKey) :
    (m.verifyWithKey c msg sig pub).isPanic = true ↔ pub.Curve = none := by
  unfold ecdsaSigner.verifyWithKey
  split
  · simp [*]
  · dsimp only
    repeat' split
    all_goals simp [*]

/-- The options a signer is given only choose its source of randomness: signing with
`withSignRandomSource` options is signing with none, with the last source they name as
`rand.Reader`. -/
theorem Sign_withSignRandomSource (c : Crypto) (alg : Algorithm) (msg : Bytes) (key : KeyValue)
    (rs : List Reader) :
    alg.Sign c msg key (rs.map withSignRandomSource) =
      alg.Sign { c with randReader := rs.getLastD c.randReader } msg key [] := by
  have hopts : applySignOptions c (rs.map withSignRandomSource) =
      applySignOptions { c with randReader := rs.getLastD c.randReader } [] :=
    foldl_withSignRandomSource _ rs
  cases alg with
  | ed25519 _ => rfl
  | ecdsa m => simp only [Algorithm.Sign, ecdsaSigner.Sign, ecdsaSigner.signWithKey, hopts]

/-!
## What a rejection reveals

Both signers answer a signature they reject as they would if the primitive rejected every
signature, and then only the signature's length is left to go by: a malformed signature and a
well-formed wrong one are not told apart.
-/

variable {sig' : Bytes}

end Signatures
end GoTuf
