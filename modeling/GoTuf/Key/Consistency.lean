import GoTuf.Key.Envelope

/-!
# What a decoded key pair is consistent with

A private key that the decoder returns is checked against the declared public key, but only
through one derivation: an Ed25519 key through the public key its seed gives, an ECDSA key
through the point its scalar gives once reduced modulo the group order. The 32 bytes after an
Ed25519 seed, the public half that `ed25519.PrivateKey` carries and that `Sign` hashes, are never
compared with the declared public key, and an ECDSA scalar is never compared with the order.
-/

namespace GoTuf
namespace Key

open Elliptic

/-!
## The public half of an Ed25519 private key
-/

/-- What an Ed25519 record's key is checked against, through either entry point: the declared
public key has 32 bytes and is off the low-order blacklist, and a private part has 64 bytes
whose first 32, the seed, derive the declared public key. -/
theorem fromRecord_ed25519_checks (kind : String) (c : Crypto) {v : Bytes} {k : KeyValue}
    (h : fromRecord kind c (some ⟨KeyTypeEd25519, v⟩) = .ok k) :
    ∃ kp, decodeKeyPair (v.take MaxKeyInputSize) = .ok kp ∧
      kp.Public.length = ed25519.PublicKeySize ∧ c.isEdLowOrder kp.Public = false ∧
      (kp.Private = none ∧ k = .ed25519PublicKey kp.Public ∨
        ∃ priv, kp.Private = some priv ∧ priv.length = ed25519.PrivateKeySize ∧
          c.ed25519Public (priv.take 32) = kp.Public ∧ k = .ed25519PrivateKey priv) := by
  obtain ⟨kp, hkp, ⟨-, hu⟩ | ⟨h, -⟩ | ⟨h, -⟩⟩ := fromRecord_eq_ok h
  · exact ⟨kp, hkp, unmarshalEd25519Key_eq_ok hu⟩
  all_goals exact absurd h (by simp only; decide)

theorem fromRecord_ed25519_checks_zero :
    ∃ kp, decodeKeyPair ((envelope ⟨List.replicate 32 0, none⟩).take MaxKeyInputSize) = .ok kp ∧
      kp.Public.length = ed25519.PublicKeySize ∧ Crypto.reference.isEdLowOrder kp.Public = false ∧
      (kp.Private = none ∧ KeyValue.ed25519PublicKey (List.replicate 32 0) = .ed25519PublicKey kp.Public ∨
        ∃ priv, kp.Private = some priv ∧ priv.length = ed25519.PrivateKeySize ∧
          Crypto.reference.ed25519Public (priv.take 32) = kp.Public ∧
          KeyValue.ed25519PublicKey (List.replicate 32 0) = .ed25519PrivateKey priv) :=
  fromRecord_ed25519_checks "public" Crypto.reference
    (by rw [fromRecord_ed25519 (decodeKeyPair_take_envelope (by decide))]; rfl)

/-- An Ed25519 record whose private part is a seed, deriving the declared public key, followed by
any 32 bytes decodes to that private key: its second half is not compared with the declared
public key. -/
theorem FromPrivateKey_ed25519_unchecked_half (c : Crypto) {seed half : Bytes}
    (hseed : seed.length = 32) (hhalf : half.length = 32)
    (hpub : (c.ed25519Public seed).length = 32)
    (hlow : c.isEdLowOrder (c.ed25519Public seed) = false) :
    FromPrivateKey c (some ⟨KeyTypeEd25519, envelope ⟨c.ed25519Public seed, some (seed ++ half)⟩⟩) =
      .ok (.ed25519PrivateKey (seed ++ half)) := by
  have hlen : (envelope ⟨c.ed25519Public seed, some (seed ++ half)⟩).length ≤ MaxKeyInputSize := by
    simp [length_envelope, Base64.length_encode, hpub, hseed, hhalf, MaxKeyInputSize]
  rw [FromPrivateKey, fromRecord_ed25519 (decodeKeyPair_take_envelope hlen)]
  exact unmarshalEd25519Key_private hpub hlow rfl (by simp [hseed, hhalf, ed25519.PrivateKeySize])
    (by rw [List.take_left' hseed])

theorem FromPrivateKey_ed25519_unchecked_half_reference :
    FromPrivateKey Crypto.reference (some ⟨KeyTypeEd25519,
        envelope ⟨List.replicate 32 0, some (List.replicate 32 0 ++ List.replicate 32 1)⟩⟩) =
      .ok (.ed25519PrivateKey (List.replicate 32 0 ++ List.replicate 32 1)) :=
  @FromPrivateKey_ed25519_unchecked_half Crypto.reference (List.replicate 32 0)
    (List.replicate 32 1) rfl rfl rfl rfl

/-!
## The scalar of an ECDSA private key
-/

/-- Every consistent P-256 key pair, its point uncompressed and its scalar in 32 bytes, decodes
back to itself through either entry point, and its point alone to its public key. -/
theorem fromRecord_p256_round_trip (kind : String) (c : Crypto) {x y d : Nat}
    (hon : P256.IsOnCurve x y = true) (hd : d < 256 ^ 32)
    (hxy : P256.ScalarBaseMult (bigEndian 32 d) = (x, y)) :
    fromRecord kind c (some ⟨KeyTypeECDSA_SHA2_P256,
        envelope ⟨P256.Marshal x y, some (bigEndian 32 d)⟩⟩) =
        .ok (.ecdsaPrivateKeyRef (some ⟨⟨some P256, x, y⟩, d⟩)) ∧
      fromRecord kind c (some ⟨KeyTypeECDSA_SHA2_P256, envelope ⟨P256.Marshal x y, none⟩⟩) =
        .ok (.ecdsaPublicKeyRef (some ⟨some P256, x, y⟩)) := by
  constructor
  · rw [fromRecord_ecdsa (decodeKeyPair_take_envelope (length_p256_envelope_le x y
      (by simp))), unmarshalECDSAKey_Marshal hon hd hxy]
  · rw [fromRecord_ecdsa (decodeKeyPair_take_envelope (length_p256_envelope_le x y (by simp)))]
    exact unmarshalECDSAKey_public rfl (decodePoint_Marshal hon P256_P_le) hon

theorem fromRecord_p256_round_trip_base :
    fromRecord "private" Crypto.reference (some ⟨KeyTypeECDSA_SHA2_P256,
        envelope ⟨P256.Marshal P256.Gx P256.Gy, some (bigEndian 32 1)⟩⟩) =
        .ok (.ecdsaPrivateKeyRef (some ⟨⟨some P256, P256.Gx, P256.Gy⟩, 1⟩)) ∧
      fromRecord "private" Crypto.reference
          (some ⟨KeyTypeECDSA_SHA2_P256, envelope ⟨P256.Marshal P256.Gx P256.Gy, none⟩⟩) =
        .ok (.ecdsaPublicKeyRef (some ⟨some P256, P256.Gx, P256.Gy⟩)) :=
  fromRecord_p256_round_trip "private" Crypto.reference P256_IsOnCurve_base (by decide)
    (P256.ScalarBaseMult_of_mod_eq_one (by decide) (by decide))

theorem fromRecord_p256_base (kind : String) (c : Crypto) {d : Nat} (hd : d < 256 ^ 32)
    (h1 : d % P256.N = 1) :
    fromRecord kind c (some ⟨KeyTypeECDSA_SHA2_P256,
        envelope ⟨P256.Marshal P256.Gx P256.Gy, some (bigEndian 32 d)⟩⟩) =
      .ok (.ecdsaPrivateKeyRef (some ⟨⟨some P256, P256.Gx, P256.Gy⟩, d⟩)) := by
  rw [fromRecord_ecdsa (decodeKeyPair_take_envelope (length_p256_envelope_le _ _ (by simp))),
    unmarshalECDSAKey_Marshal P256_IsOnCurve_base hd
      (P256.ScalarBaseMult_of_mod_eq_one (by rw [setBytes_bigEndian hd]; exact h1) (by decide))]

/-- Every key decoded from a compressed point is also decoded, with the same private part, from
the uncompressed encoding of that point, which is another byte string. -/
theorem unmarshalECDSAKey_compressed {t : UInt8} {xs : Bytes} {priv : Option Bytes}
    {k : KeyValue} (ht : t = 2 ∨ t = 3) (h : unmarshalECDSAKey (some ⟨t :: xs, priv⟩) = .ok k) :
    ∃ x y, P256.Marshal x y ≠ t :: xs ∧
      unmarshalECDSAKey (some ⟨P256.Marshal x y, priv⟩) = .ok k := by
  obtain ⟨x, y, -, hon, hkey⟩ := unmarshalECDSAKey_eq_ok h
  have hdec := decodePoint_Marshal hon P256_P_le
  refine ⟨x, y, fun heq => ?_, ?_⟩
  · rcases ht with rfl | rfl <;> cases (List.cons.inj heq).1
  · rcases hkey with ⟨hnone, rfl⟩ | ⟨p, hp, hlen, hd, rfl⟩
    · exact unmarshalECDSAKey_public hnone hdec hon
    · exact unmarshalECDSAKey_private hp hlen hdec hon hd

set_option maxRecDepth 20000 in
theorem P256_UnmarshalCompressed_base :
    P256.UnmarshalCompressed (3 :: bigEndian 32 P256.Gx) = some (P256.Gx, P256.Gy) := by
  decide

theorem unmarshalECDSAKey_compressed_base :
    ∃ x y, P256.Marshal x y ≠ 3 :: bigEndian 32 P256.Gx ∧
      unmarshalECDSAKey (some ⟨P256.Marshal x y, none⟩) =
        .ok (.ecdsaPublicKeyRef (some ⟨some P256, P256.Gx, P256.Gy⟩)) :=
  unmarshalECDSAKey_compressed (.inr rfl) (unmarshalECDSAKey_public rfl
    (by unfold decodePoint; dsimp only; rw [if_pos (.inr rfl), P256_UnmarshalCompressed_base])
    P256_IsOnCurve_base)

/-!
## The on-curve check
-/

/-- The check that the decoded point lies on P-256 never fails: `unmarshalECDSAKey` never returns
its error, since both encodings it reads decode only to points of the curve. -/
theorem unmarshalECDSAKey_ne_not_on_curve (raw : Option jsonKeyPair) :
    unmarshalECDSAKey raw ≠
      .error (.message "key: ecdsa public key point is not on the associated curve") := by
  intro h
  cases raw with
  | none => simp [unmarshalECDSAKey] at h
  | some raw =>
    simp only [unmarshalECDSAKey] at h
    split at h
    · -- an error of decodePoint, none of which has this text
      cases h
      rename_i herr
      unfold decodePoint at herr
      dsimp only at herr
      repeat' split at herr
      all_goals simp at herr
    · rename_i x y hxy
      rw [decodePoint_IsOnCurve (by decide) hxy] at h
      simp only [Bool.not_true, Bool.false_eq_true, if_false] at h
      split at h
      · cases h
      · split_ifs at h <;> simp at h

end Key
end GoTuf
