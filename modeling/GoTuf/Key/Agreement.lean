import GoTuf.Key.Consistency
import GoTuf.Signatures.FailClosed
import GoTuf.Signatures.RoundTrip

/-!
# The decoder and the registered verifiers

A record's type names both its decoder and, in the signature registry, the algorithm that
verifies with the key. The two agree on the shape of a public key: the verifier registered under
`ed25519` or `ecdsa-sha2-nistp256` takes every public key the decoder returns for that type. But
`FromPublicKey` does not drop a private part: for a value that has one it returns the private key,
which the verifier rejects as a key of the wrong type. Whatever the record, no key the decoder
returns makes a verifier panic.
-/

namespace GoTuf
namespace Key

open Elliptic Signatures

variable {c : Crypto} {msg sig : Bytes} {raw : jsonKeyPair} {k : KeyValue}

theorem Ed25519_Sign_errorIs_invalidKey (hmsg : msg ≠ []) {opts : List SignOption}
    (hk : unmarshalEd25519Key c (some raw) = .ok k) :
    (Ed25519.Sign c msg k opts).errorIs .invalidKey = true ↔ raw.Private = none := by
  obtain ⟨-, -, ⟨hnone, rfl⟩ | ⟨priv, hpriv, hlen, -, rfl⟩⟩ := unmarshalEd25519Key_eq_ok hk
  · simp [hnone, Ed25519, Algorithm.Sign, ed25519Signer.Sign, hmsg]
  · rw [hpriv, Ed25519, Algorithm.Sign,
      ed25519Signer.Sign_of_HoldsEd25519Private hmsg (.inl rfl)]
    simp [ed25519Signer.signWithKey, hlen]

theorem ECDSA_P256_SHA256_Sign_errorIs_invalidKey (hmsg : msg ≠ []) {opts : List SignOption}
    (hk : unmarshalECDSAKey (some raw) = .ok k) :
    (ECDSA_P256_SHA256.Sign c msg k opts).errorIs .invalidKey = true ↔ raw.Private = none := by
  obtain ⟨x, y, -, -, ⟨hnone, rfl⟩ | ⟨priv, hpriv, -, -, rfl⟩⟩ := unmarshalECDSAKey_eq_ok hk
  · simp [hnone, ECDSA_P256_SHA256, Algorithm.Sign, ecdsaSigner.Sign, hmsg]
  · rw [hpriv, ECDSA_P256_SHA256, Algorithm.Sign,
      ecdsaSigner.Sign_of_HoldsEcdsaPrivate hmsg (.inr rfl), signWithKey_errorIs_invalidKey rfl]
    exact iff_of_false (by decide) nofun

theorem fromRecord_registered {kind : String} {r : Record}
    (htype : r.keytype = KeyTypeEd25519 ∨ r.keytype = KeyTypeECDSA_SHA2_P256)
    (hk : fromRecord kind c (some r) = .ok k) :
    ∃ kp, decodeKeyPair (r.keyval.take MaxKeyInputSize) = .ok kp ∧
      (GetAlgorithm r.keytype registry = some Ed25519 ∧ unmarshalEd25519Key c (some kp) = .ok k ∨
        GetAlgorithm r.keytype registry = some ECDSA_P256_SHA256 ∧
          unmarshalECDSAKey (some kp) = .ok k) := by
  obtain ⟨kp, hkp, hdispatch⟩ := fromRecord_eq_ok hk
  refine ⟨kp, hkp, ?_⟩
  rcases htype with htype | htype <;> rw [htype] at hdispatch ⊢
  · rcases hdispatch with ⟨-, hu⟩ | ⟨h, -⟩ | ⟨h, -⟩
    · exact .inl ⟨GetAlgorithm_registry_ed25519, hu⟩
    all_goals exact absurd h (by decide)
  · rcases hdispatch with ⟨h, -⟩ | ⟨-, hu⟩ | ⟨h, -⟩
    · exact absurd h (by decide)
    · exact .inr ⟨GetAlgorithm_registry_p256, hu⟩
    · exact absurd h (by decide)

def p256KeyPairEnvelope : Bytes :=
  envelope ⟨P256.Marshal P256.Gx P256.Gy, some (bigEndian 32 1)⟩

/-- Symmetrically, the algorithm registered under the record's type rejects the key that
`FromPrivateKey` returns as invalid exactly when the decoded value has no private part: every
private key the decoder returns is one that `Sign` takes. -/
theorem FromPrivateKey_Sign_invalidKey_iff {r : Record}
    (htype : r.keytype = KeyTypeEd25519 ∨ r.keytype = KeyTypeECDSA_SHA2_P256)
    (hk : FromPrivateKey c (some r) = .ok k) :
    ∃ kp alg, decodeKeyPair (r.keyval.take MaxKeyInputSize) = .ok kp ∧
      GetAlgorithm r.keytype registry = some alg ∧
      ∀ msg opts, msg ≠ [] ->
        ((alg.Sign c msg k opts).errorIs .invalidKey = true ↔ kp.Private = none) := by
  obtain ⟨kp, hkp, ⟨halg, hu⟩ | ⟨halg, hu⟩⟩ := fromRecord_registered htype hk
  · exact ⟨kp, _, hkp, halg, fun _ _ hmsg => Ed25519_Sign_errorIs_invalidKey hmsg hu⟩
  · exact ⟨kp, _, hkp, halg, fun _ _ hmsg => ECDSA_P256_SHA256_Sign_errorIs_invalidKey hmsg hu⟩

theorem FromPrivateKey_Sign_invalidKey_iff_p256KeyPair :
    ∃ kp alg, decodeKeyPair (p256KeyPairEnvelope.take MaxKeyInputSize) = .ok kp ∧
      GetAlgorithm KeyTypeECDSA_SHA2_P256 registry = some alg ∧
      ∀ msg opts, msg ≠ [] ->
        ((alg.Sign Crypto.reference msg
          (.ecdsaPrivateKeyRef (some ⟨⟨some P256, P256.Gx, P256.Gy⟩, 1⟩)) opts).errorIs
            .invalidKey = true ↔ kp.Private = none) :=
  FromPrivateKey_Sign_invalidKey_iff (r := ⟨KeyTypeECDSA_SHA2_P256, p256KeyPairEnvelope⟩) (.inr rfl)
    (fromRecord_p256_base _ _ (by decide) (by decide))

/-!
## Decoded keys sign and verify

The decoder and the signers fit together: the algorithm registered under a record's type
verifies every signature it makes with the private key `FromPrivateKey` returns, under the
public key `FromPublicKey` returns for a record of the public part alone. This needs two facts
about the private part that the decoder does not check: the second half of an Ed25519 key is the
declared public key, and an ECDSA scalar is below the group order.
-/

/-- The checks a private part needs for signing beyond those the decoder makes. -/
def SignableKeyPair (keytype : String) (kp : jsonKeyPair) : Prop :=
  ∀ priv, kp.Private = some priv ->
    (keytype = KeyTypeEd25519 -> priv.drop 32 = kp.Public) ∧
      (keytype = KeyTypeECDSA_SHA2_P256 -> setBytes priv < P256.N)

theorem Ed25519_decoded_Sign_then_Verify (hc : c.Correct) {kp : jsonKeyPair} {k k' : KeyValue}
    (hk : unmarshalEd25519Key c (some kp) = .ok k)
    (hk' : unmarshalEd25519Key c (some ⟨kp.Public, none⟩) = .ok k')
    (hhalf : ∀ priv, kp.Private = some priv -> priv.drop 32 = kp.Public) (hmsg : msg ≠ [])
    {opts : List SignOption} (hsign : Ed25519.Sign c msg k opts = .ok sig) :
    Ed25519.Verify c msg sig k' = .ok () := by
  change ed25519Signer.Sign c msg k opts = .ok sig at hsign
  obtain ⟨-, -, ⟨-, rfl⟩ | ⟨priv, hpriv, hplen, hder, rfl⟩⟩ := unmarshalEd25519Key_eq_ok hk
  · obtain ⟨pk, -, hpk, -⟩ := ed25519Signer.Sign_eq_ok hsign
    rcases hpk with h | h <;> cases h
  obtain ⟨-, -, ⟨-, rfl⟩ | ⟨_, h, -⟩⟩ := unmarshalEd25519Key_eq_ok hk'
  · have hseed : (priv.take 32).length = 32 := by
      simp [hplen, ed25519.PrivateKeySize]
    have hsplit : priv = priv.take 32 ++ c.ed25519Public (priv.take 32) := by
      rw [hder, ← hhalf priv hpriv, List.take_append_drop]
    rw [hsplit] at hsign
    exact ed25519_Sign_then_Verify hc hseed hmsg (.inl rfl) (.inl (hder.symm ▸ rfl)) hsign
  · cases h

theorem ECDSA_P256_SHA256_decoded_Sign_then_Verify (hc : c.Correct) {kp : jsonKeyPair}
    {k k' : KeyValue} (hk : unmarshalECDSAKey (some kp) = .ok k)
    (hk' : unmarshalECDSAKey (some ⟨kp.Public, none⟩) = .ok k')
    (hrange : ∀ priv, kp.Private = some priv -> setBytes priv < P256.N) (hmsg : msg ≠ [])
    {opts : List SignOption} (hsign : ECDSA_P256_SHA256.Sign c msg k opts = .ok sig) :
    ECDSA_P256_SHA256.Verify c msg sig k' = .ok () := by
  change ecdsaSigner.Sign _ c msg k opts = .ok sig at hsign
  obtain ⟨x, y, hxy, hon, ⟨-, rfl⟩ | ⟨priv, hpriv, hplen, hd, rfl⟩⟩ := unmarshalECDSAKey_eq_ok hk
  · obtain ⟨pk, -, hpk, -⟩ := ecdsaSigner.Sign_eq_ok hsign
    rcases hpk with h | h <;> cases h
  obtain ⟨x', y', hxy', -, ⟨-, rfl⟩ | ⟨_, h, -⟩⟩ := unmarshalECDSAKey_eq_ok hk'
  · obtain ⟨rfl, rfl⟩ : x' = x ∧ y' = y := by simpa using hxy'.symm.trans hxy
    have h32 : priv.length = P256.byteLen := hplen
    have hpos : 0 < setBytes priv := by
      refine Nat.pos_of_ne_zero fun h0 => ?_
      rw [P256.ScalarBaseMult_of_mod_eq_zero (by rw [h0]; rfl)] at hd
      obtain ⟨rfl, rfl⟩ := Prod.mk.inj hd.symm
      exact absurd hon (by rw [P256_IsOnCurve_zero]; decide)
    have hvalid : EcdsaPrivateKey.ValidOn ⟨⟨some P256, x', y'⟩, setBytes priv⟩ P256 :=
      ⟨rfl, hpos, hrange priv hpriv, by rw [← h32, bigEndian_setBytes, hd]⟩
    refine ecdsa_Sign_then_Verify hc ?_ ?_ ?_ ?_ hvalid hmsg (.inr rfl) (.inr rfl) hsign <;>
      first | rfl | decide
  · cases h

/-- For a record of type `ed25519` or `ecdsa-sha2-nistp256` whose key pair passes the checks
`SignableKeyPair` adds, and a record of the same type holding its public part alone, the
algorithm registered under the type verifies, with the key `FromPublicKey` returns for the
second record, every signature it makes with the key `FromPrivateKey` returns for the first. -/
theorem decoded_keys_Sign_then_Verify (hc : c.Correct) {r r' : Record}
    (htype : r.keytype = KeyTypeEd25519 ∨ r.keytype = KeyTypeECDSA_SHA2_P256)
    (htype' : r'.keytype = r.keytype) {kp : jsonKeyPair}
    (hkp : decodeKeyPair (r.keyval.take MaxKeyInputSize) = .ok kp)
    (hpub : decodeKeyPair (r'.keyval.take MaxKeyInputSize) = .ok ⟨kp.Public, none⟩)
    (hsignable : SignableKeyPair r.keytype kp) {k k' : KeyValue}
    (hk : FromPrivateKey c (some r) = .ok k) (hk' : FromPublicKey c (some r') = .ok k') :
    ∃ alg, GetAlgorithm r.keytype registry = some alg ∧
      ∀ msg opts sig, msg ≠ [] -> alg.Sign c msg k opts = .ok sig ->
        alg.Verify c msg sig k' = .ok () := by
  obtain ⟨kp₀, hkp₀, hdispatch⟩ := fromRecord_eq_ok hk
  obtain ⟨kp₁, hkp₁, hdispatch'⟩ := fromRecord_eq_ok hk'
  cases hkp₀.symm.trans hkp
  cases hkp₁.symm.trans hpub
  rw [htype'] at hdispatch'
  rcases hdispatch with ⟨ht, hu⟩ | ⟨ht, hu⟩ | ⟨ht, -⟩
  · rcases hdispatch' with ⟨-, hu'⟩ | ⟨ht', -⟩ | ⟨ht', -⟩
    · rw [ht]
      exact ⟨_, GetAlgorithm_registry_ed25519, fun _ _ _ hmsg => Ed25519_decoded_Sign_then_Verify
        hc hu hu' (fun priv h => (hsignable priv h).1 ht) hmsg⟩
    all_goals exact absurd (ht.symm.trans ht') (by decide)
  · rcases hdispatch' with ⟨ht', -⟩ | ⟨-, hu'⟩ | ⟨ht', -⟩
    · exact absurd (ht.symm.trans ht') (by decide)
    · rw [ht]
      exact ⟨_, GetAlgorithm_registry_p256, fun _ _ _ hmsg =>
        ECDSA_P256_SHA256_decoded_Sign_then_Verify hc hu hu'
          (fun priv h => (hsignable priv h).2 ht) hmsg⟩
    · exact absurd (ht.symm.trans ht') (by decide)
  · rcases htype with h | h <;> exact absurd (ht.symm.trans h) (by decide)

theorem decoded_keys_Sign_then_Verify_p256 :
    ∃ alg, GetAlgorithm KeyTypeECDSA_SHA2_P256 registry = some alg ∧
      ∀ msg opts sig, msg ≠ [] ->
        alg.Sign Crypto.reference msg
            (.ecdsaPrivateKeyRef (some ⟨⟨some P256, P256.Gx, P256.Gy⟩, 1⟩)) opts = .ok sig ->
          alg.Verify Crypto.reference msg sig
            (.ecdsaPublicKeyRef (some ⟨some P256, P256.Gx, P256.Gy⟩)) = .ok () :=
  @decoded_keys_Sign_then_Verify Crypto.reference Crypto.reference_Correct
    ⟨KeyTypeECDSA_SHA2_P256, p256KeyPairEnvelope⟩ ⟨KeyTypeECDSA_SHA2_P256, p256BaseEnvelope⟩
    (.inr rfl) rfl _ (decodeKeyPair_take_envelope (length_p256_envelope_le _ _
      fun _ hq => by cases hq; exact length_bigEndian 32 1))
    (decodeKeyPair_take_envelope length_p256BaseEnvelope)
    (fun priv h => ⟨nofun, fun _ => by cases h; decide⟩) _ _
    (fromRecord_p256_base _ _ (by decide) (by decide))
    (List.append_nil p256BaseEnvelope ▸ FromPublicKey_p256BaseEnvelope_append Crypto.reference [])

/-!
## No decoded key makes a verifier panic
-/

theorem fromRecord_eq_ok_shape {kind : String} {r : Option Record}
    (h : fromRecord kind c r = .ok k) :
    k = .nil ∨ (∃ b, k = .ed25519PublicKey b) ∨ (∃ b, k = .ed25519PrivateKey b) ∨
      (∃ x y, k = .ecdsaPublicKeyRef (some ⟨some P256, x, y⟩)) ∨
      (∃ x y d, k = .ecdsaPrivateKeyRef (some ⟨⟨some P256, x, y⟩, d⟩)) := by
  cases r with
  | none => cases h
  | some r =>
      obtain ⟨kp, -, ⟨-, hk⟩ | ⟨-, hk⟩ | ⟨-, hk⟩⟩ := fromRecord_eq_ok h
      · obtain ⟨-, -, ⟨-, rfl⟩ | ⟨priv, -, -, -, rfl⟩⟩ := unmarshalEd25519Key_eq_ok hk
        · exact .inr (.inl ⟨_, rfl⟩)
        · exact .inr (.inr (.inl ⟨_, rfl⟩))
      · obtain ⟨x, y, -, -, ⟨-, rfl⟩ | ⟨priv, -, -, -, rfl⟩⟩ := unmarshalECDSAKey_eq_ok hk
        · exact .inr (.inr (.inr (.inl ⟨x, y, rfl⟩)))
        · exact .inr (.inr (.inr (.inr ⟨x, y, _, rfl⟩)))
      · cases hk
        exact .inl rfl

/-- No key `FromPrivateKey` or `FromPublicKey` returns makes `Verify` panic, whatever text it was
read from and whichever algorithm it is handed to: the decoder builds no nil pointer and no ECDSA
key without a curve. -/
theorem fromRecord_Verify_not_isPanic {kind : String} {r : Option Record}
    (h : fromRecord kind c r = .ok k) (alg : Algorithm) :
    (alg.Verify c msg sig k).isPanic = false := by
  rcases fromRecord_eq_ok_shape h with rfl | ⟨b, rfl⟩ | ⟨b, rfl⟩ | ⟨x, y, rfl⟩ | ⟨x, y, d, rfl⟩ <;>
    cases alg <;>
    simp [Algorithm.Verify, ed25519Signer.Verify, ecdsaSigner.Verify, apply_ite Outcome.isPanic,
      Bool.eq_false_iff, ed25519Signer.verifyWithKey_isPanic, ecdsaSigner.verifyWithKey_isPanic]

theorem fromRecord_Verify_not_isPanic_p256 :
    fromRecord "public" Crypto.reference (some ⟨KeyTypeECDSA_SHA2_P256, p256KeyPairEnvelope⟩) =
        .ok (.ecdsaPrivateKeyRef (some ⟨⟨some P256, P256.Gx, P256.Gy⟩, 1⟩)) ∧
      (ECDSA_P256_SHA256.Verify Crypto.reference [1] [1]
        (.ecdsaPrivateKeyRef (some ⟨⟨some P256, P256.Gx, P256.Gy⟩, 1⟩))).isPanic = false :=
  have h := fromRecord_p256_base "public" Crypto.reference (d := 1) (by decide) (by decide)
  ⟨h, fromRecord_Verify_not_isPanic h ECDSA_P256_SHA256⟩

end Key
end GoTuf
