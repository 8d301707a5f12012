import GoTuf.Signatures.Registry

/-!
# Signing then verifying

For every registered algorithm, a signature that `Sign` makes with a valid private key is
accepted by `Verify` under the matching public key, given only that the primitives are correct
(`Crypto.Correct`). For ECDSA this rests on the fixed-width codec: `Sign` writes
`⌈curveBits / 8⌉` bytes per integer, which is the `keySize` that `Verify` splits at, and every
integer below the group order fits.
-/

namespace GoTuf
namespace Signatures

open Elliptic

def instanceCurve (m : ecdsaSigner) : Option CurveParams :=
  if m.name = "ecdsa-sha2-nistp256" then some P256
  else if m.name = "ecdsa-sha384-nistp384" then some P384
  else none

/-- A valid key pair of an algorithm, each half in either form its methods accept: for
Ed25519 a seed followed by its public key, and that public key; for ECDSA a valid key of the
instance's curve, and its public half. -/
def ValidKeyPair (c : Crypto) : Algorithm -> KeyValue -> KeyValue -> Prop
  | .ed25519 _, priv, pub => ∃ seed, seed.length = 32 ∧
      priv.HoldsEd25519Private (seed ++ c.ed25519Public seed) ∧
      pub.HoldsEd25519Public (c.ed25519Public seed)
  | .ecdsa m, priv, pub => ∃ curve k, instanceCurve m = some curve ∧ k.ValidOn curve ∧
      priv.HoldsEcdsaPrivate k ∧ pub.HoldsEcdsaPublic k.PublicKey

/-!
## The codec of each ECDSA instance
-/

theorem encodeSignature_round_trip {k r s : Nat} (hr : r < 256 ^ k) (hs : s < 256 ^ k) :
    ∃ sig, encodeSignature k r s = some sig ∧ sig.length = 2 * k ∧
      decodeSignature k sig = (r, s) := by
  refine ⟨_, encodeSignature_of_lt hr hs, by simp; omega, ?_⟩
  rw [decodeSignature_append (length_bigEndian k r), setBytes_bigEndian hr, setBytes_bigEndian hs]

theorem registry_ecdsa {name : String} {m : ecdsaSigner}
    (h : GetAlgorithm name registry = some (.ecdsa m)) :
    ∃ curve, instanceCurve m = some curve ∧ curve.BitSize = m.curveBits ∧
      keyBytesOf m.curveBits = m.keySize ∧ curve.N < 2 ^ curve.BitSize ∧
      m.curveBits ≤ 8 * m.keySize := by
  rcases GetAlgorithm_registry_eq_some h with h | h | h <;> cases h
  · exact ⟨P256, rfl, rfl, rfl, by decide, by decide⟩
  · have h384 : 2 ^ P384.BitSize = 256 ^ 48 := by
      rw [show P384.BitSize = 8 * 48 from rfl, pow_mul]
      rfl
    exact ⟨P384, rfl, rfl, rfl, by rw [h384]; decide, by decide⟩

/-- The fixed-width signature codec of each ECDSA instance is a bijection between pairs of
integers of `8 * keySize` bits and signatures of `2 * keySize` bytes, and it covers every
integer below the order of the instance's curve. -/
theorem ecdsa_signature_codec {name : String} {m : ecdsaSigner}
    (hm : GetAlgorithm name registry = some (.ecdsa m)) :
    keyBytesOf m.curveBits = m.keySize ∧
    (∀ curve, instanceCurve m = some curve -> curve.N ≤ 2 ^ (8 * m.keySize)) ∧
    (∀ r s, r < 2 ^ (8 * m.keySize) -> s < 2 ^ (8 * m.keySize) ->
      ∃ sig, encodeSignature (keyBytesOf m.curveBits) r s = some sig ∧
        sig.length = 2 * m.keySize ∧ decodeSignature m.keySize sig = (r, s)) ∧
    (∀ sig, sig.length = 2 * m.keySize ->
      encodeSignature (keyBytesOf m.curveBits) (decodeSignature m.keySize sig).1
        (decodeSignature m.keySize sig).2 = some sig) ∧
    (∀ a b, a.length = 2 * m.keySize -> b.length = 2 * m.keySize ->
      decodeSignature m.keySize a = decodeSignature m.keySize b -> a = b) := by
  obtain ⟨curve, hcurve, hbits, hk, hN, hsize⟩ := registry_ecdsa hm
  have h256 : 2 ^ (8 * m.keySize) = 256 ^ m.keySize := by rw [pow_mul]; rfl
  rw [hk, h256]
  refine ⟨rfl, fun curve' h' => ?_, fun r s hr hs => encodeSignature_round_trip hr hs,
    fun sig h => encodeSignature_decodeSignature h, fun a b ha hb h => decodeSignature_injective ha hb h⟩
  rw [hcurve] at h'
  cases h'
  calc curve.N ≤ 2 ^ curve.BitSize := hN.le
    _ ≤ 2 ^ (8 * m.keySize) := Nat.pow_le_pow_right (by decide) (hbits ▸ hsize)
    _ = 256 ^ m.keySize := h256

theorem ecdsa_signature_codec_p256 :
    keyBytesOf 256 = 32 ∧
    (∀ curve, instanceCurve
      { name := "ecdsa-sha2-nistp256", hash := .SHA256, keySize := 32, curveBits := 256 } =
        some curve -> curve.N ≤ 2 ^ (8 * 32)) ∧
    (∀ r s, r < 2 ^ (8 * 32) -> s < 2 ^ (8 * 32) ->
      ∃ sig, encodeSignature (keyBytesOf 256) r s = some sig ∧
        sig.length = 2 * 32 ∧ decodeSignature 32 sig = (r, s)) ∧
    (∀ sig, sig.length = 2 * 32 ->
      encodeSignature (keyBytesOf 256) (decodeSignature 32 sig).1
        (decodeSignature 32 sig).2 = some sig) ∧
    (∀ a b, a.length = 2 * 32 -> b.length = 2 * 32 ->
      decodeSignature 32 a = decodeSignature 32 b -> a = b) :=
  ecdsa_signature_codec GetAlgorithm_registry_p256

/-!
## Signing then verifying
-/

theorem instanceCurve_eq_some {m : ecdsaSigner} {curve : CurveParams}
    (h : instanceCurve m = some curve) : curve = P256 ∨ curve = P384 := by
  unfold instanceCurve at h
  split_ifs at h <;> cases h
  · exact .inl rfl
  · exact .inr rfl

theorem ecdsa_Sign_then_Verify {c : Crypto} (hc : c.Correct) {m : ecdsaSigner}
    {curve : CurveParams} (hcurve : instanceCurve m = some curve)
    (hbits : curve.BitSize = m.curveBits) (hk : keyBytesOf m.curveBits = m.keySize)
    (hN : curve.N ≤ 256 ^ m.keySize) {k : EcdsaPrivateKey} (hvalid : k.ValidOn curve)
    {msg sig : Bytes} (hmsg : msg ≠ []) {priv pub : KeyValue} (hpriv : priv.HoldsEcdsaPrivate k)
    (hpub : pub.HoldsEcdsaPublic k.PublicKey) {opts : List SignOption}
    (hsign : m.Sign c msg priv opts = .ok sig) : m.Verify c msg sig pub = .ok () := by
  obtain ⟨pk, -, hpk, hsw⟩ := ecdsaSigner.Sign_eq_ok hsign
  cases hpk.unique hpriv
  obtain ⟨params, r, s, hparams, hb, havail, hes, henc⟩ := ecdsaSigner.signWithKey_eq_ok hsw
  obtain rfl : curve = params := Option.some.inj (hvalid.1.symm.trans hparams)
  obtain ⟨⟨-, hrN⟩, ⟨-, hsN⟩, hver⟩ :=
    hc.ecdsa curve (instanceCurve_eq_some hcurve) k hvalid _ _ r s hes
  rw [hbits, hk] at henc
  obtain ⟨hr, hs, rfl⟩ := encodeSignature_eq_some henc
  have hpos : 0 < m.keySize := by
    refine Nat.pos_of_ne_zero fun h0 => ?_
    rw [h0, pow_zero] at hN
    rcases instanceCurve_eq_some hcurve with rfl | rfl <;> exact absurd hN (by decide)
  have hsig : bigEndian m.keySize r ++ bigEndian m.keySize s ≠ [] := by
    rw [ne_eq, ← List.length_eq_zero, List.length_append, length_bigEndian, length_bigEndian]
    omega
  rw [ecdsaSigner.Verify_of_HoldsEcdsaPublic hmsg hsig hpub]
  simp [ecdsaSigner.verifyWithKey, hvalid.1, hbits, havail,
    decodeSignature_append (length_bigEndian m.keySize r), setBytes_bigEndian hr,
    setBytes_bigEndian hs, hver]
  omega

theorem ed25519_Sign_then_Verify {c : Crypto} (hc : c.Correct) {seed msg sig : Bytes}
    (hseed : seed.length = 32) (hmsg : msg ≠ []) {priv pub : KeyValue}
    (hpriv : priv.HoldsEd25519Private (seed ++ c.ed25519Public seed))
    (hpub : pub.HoldsEd25519Public (c.ed25519Public seed)) {opts : List SignOption}
    (hsign : ed25519Signer.Sign c msg priv opts = .ok sig) :
    ed25519Signer.Verify c msg sig pub = .ok () := by
  obtain ⟨pk, -, hpk, -, rfl⟩ := ed25519Signer.Sign_eq_ok hsign
  cases hpk.unique hpriv
  obtain ⟨hpubLen, hsigLen, hver⟩ := hc.ed25519 seed msg hseed
  have hsig : c.ed25519Sign (seed ++ c.ed25519Public seed) msg ≠ [] := by
    rw [ne_eq, ← List.length_eq_zero, hsigLen]
    decide
  rw [ed25519Signer.Verify_of_HoldsEd25519Public hmsg hsig hpub]
  simp [ed25519Signer.verifyWithKey, hpubLen, ed25519.PublicKeySize, hver]

/-- Every registered algorithm verifies, under the public half of a valid key pair, what it
signs with the private half. -/
theorem Sign_then_Verify {c : Crypto} (hc : c.Correct) {name : String} {alg : Algorithm}
    (halg : GetAlgorithm name registry = some alg) {msg sig : Bytes} (hmsg : msg ≠ [])
    {priv pub : KeyValue} (hkey : ValidKeyPair c alg priv pub) (opts : List SignOption)
    (hsign : alg.Sign c msg priv opts = .ok sig) : alg.Verify c msg sig pub = .ok () := by
  rcases GetAlgorithm_registry_eq_some halg with rfl | rfl | rfl
  · obtain ⟨seed, hseed, hpriv, hpub⟩ := hkey
    exact ed25519_Sign_then_Verify hc hseed hmsg hpriv hpub hsign
  all_goals
    obtain ⟨curve, k, hcurve, hvalid, hpriv, hpub⟩ := hkey
    obtain ⟨curve', hcurve', hbits, hk, hN, hsize⟩ := registry_ecdsa halg
    obtain rfl : curve = curve' := Option.some.inj (hcurve.symm.trans hcurve')
    refine ecdsa_Sign_then_Verify hc hcurve hbits hk ?_ hvalid hmsg hpriv hpub hsign
    calc curve.N ≤ 2 ^ curve.BitSize := hN.le
      _ ≤ 2 ^ (8 * _) := Nat.pow_le_pow_right (by decide) (hbits ▸ hsize)
      _ = 256 ^ _ := by rw [pow_mul]; rfl

theorem Sign_then_Verify_reference :
    Algorithm.Verify Crypto.reference Ed25519 [1] (List.replicate 64 0)
        (.ed25519PublicKey (List.replicate 32 0)) = .ok () ∧
      Algorithm.Verify Crypto.reference ECDSA_P256_SHA256 [1] (bigEndian 32 1 ++ bigEndian 32 1)
        (.ecdsaPublicKey ⟨some P256, P256.Gx, P256.Gy⟩) = .ok () :=
  ⟨Sign_then_Verify Crypto.reference_Correct GetAlgorithm_registry_ed25519 (by decide)
      ⟨List.replicate 32 0, rfl, .inl rfl, .inl rfl⟩ [] rfl,
    Sign_then_Verify Crypto.reference_Correct GetAlgorithm_registry_p256 (by decide)
      ⟨P256, ⟨⟨some P256, P256.Gx, P256.Gy⟩, 1⟩, rfl, ⟨rfl, by decide, by decide,
        P256.ScalarBaseMult_of_mod_eq_one (by rw [setBytes_bigEndian (by decide)]; decide)
          (by decide)⟩, .inl rfl, .inl rfl⟩ [] rfl⟩

/-!
## Signing with a valid key
-/

end Signatures
end GoTuf
