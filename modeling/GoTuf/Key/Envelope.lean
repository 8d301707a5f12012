import GoTuf.Encoding.Json.Append
import GoTuf.Encoding.Json.Object
import GoTuf.Key.Unmarshal

/-!
# The key envelope and the input bound

A record's value is the envelope `{"public":"…","private":"…"}` of base64 strings. Every
envelope decodes back to the key pair it was written from. The decoder reads at most
`MaxKeyInputSize` bytes of the value and, of those, only its first JSON value: whatever follows
a complete envelope, within the bound or beyond it, is never read, so a value longer than the
bound is accepted whenever it starts with an envelope.
-/

namespace GoTuf
namespace Key

open Elliptic

theorem plainByte_encodeChar {v : Nat} (h : v < 64) : Json.plainByte (Base64.encodeChar v) = true := by
  have key : ∀ w : Fin 64, Json.plainByte (Base64.encodeChar w) = true := by decide
  exact key ⟨v, h⟩

theorem plainByte_encode (bs : Bytes) : ∀ c ∈ Base64.encode bs, Json.plainByte c = true := by
  have hmod : ∀ v, Json.plainByte (Base64.encodeChar (v % 64)) = true :=
    fun v => plainByte_encodeChar (Nat.mod_lt v (by decide))
  have hhigh : ∀ v, v < 2 ^ 24 -> Json.plainByte (Base64.encodeChar (v / 262144)) = true :=
    fun v hv => plainByte_encodeChar (by omega)
  have hpad : Json.plainByte Base64.padChar = true := rfl
  induction bs using Base64.encode.induct with
  | case1 a b c rest ih =>
      have := UInt8.toNat_lt_256 a
      have := UInt8.toNat_lt_256 b
      have := UInt8.toNat_lt_256 c
      simp only [Base64.encode, List.cons_append, List.nil_append, List.mem_cons]
      rintro x (rfl | rfl | rfl | rfl | hx)
      exacts [hhigh _ (by omega), hmod _, hmod _, hmod _, ih x hx]
  | case2 a b =>
      have := UInt8.toNat_lt_256 a
      have := UInt8.toNat_lt_256 b
      simp only [Base64.encode, List.mem_cons, List.mem_singleton, List.not_mem_nil, or_false]
      rintro x (rfl | rfl | rfl | rfl)
      exacts [hhigh _ (by omega), hmod _, hmod _, hpad]
  | case3 a =>
      have := UInt8.toNat_lt_256 a
      simp only [Base64.encode, List.mem_cons, List.mem_singleton, List.not_mem_nil, or_false]
      rintro x (rfl | rfl | rfl | rfl)
      exacts [hhigh _ (by omega), hmod _, hpad, hpad]
  | case4 => simp [Base64.encode]

def envelopeMembers (kp : jsonKeyPair) : List (Bytes × Bytes) :=
  (ascii "public", Base64.encode kp.Public) ::
    match kp.Private with
    | none => []
    | some p => [(ascii "private", Base64.encode p)]

/-- The envelope of the wire format, `{"public":"…","private":"…"}` with no whitespace. -/
def envelope (kp : jsonKeyPair) : Bytes :=
  123 :: Json.membersText (envelopeMembers kp)

theorem PlainMembers_envelopeMembers (kp : jsonKeyPair) :
    Json.PlainMembers (envelopeMembers kp) := by
  have hpublic : ∀ c ∈ ascii "public", Json.plainByte c = true := by decide
  have hprivate : ∀ c ∈ ascii "private", Json.plainByte c = true := by decide
  intro p hp
  rcases kp with ⟨pub, _ | priv⟩ <;>
    simp only [envelopeMembers, List.mem_cons, List.mem_singleton, List.not_mem_nil,
      or_false] at hp <;>
    rcases hp with rfl | rfl <;> exact ⟨by assumption, plainByte_encode _⟩

theorem storeMember_public (kp : jsonKeyPair) (b : Bytes) :
    storeMember kp (ascii "public", .string (Base64.encode b)) = .ok { kp with Public := b } :=
  storeMember_public_of_namesField (by decide) kp b

theorem storeMember_private (kp : jsonKeyPair) (b : Bytes) :
    storeMember kp (ascii "private", .string (Base64.encode b)) = .ok { kp with Private := some b } :=
  storeMember_private_of_namesField (by decide) (by decide) kp b

theorem decodeKeyPair_envelope (kp : jsonKeyPair) : decodeKeyPair (envelope kp) = .ok kp := by
  rw [decodeKeyPair, envelope, Json.readValue_object (by simp [envelopeMembers])
    (PlainMembers_envelopeMembers kp)]
  rcases kp with ⟨pub, _ | priv⟩ <;>
    simp [envelopeMembers, storeKeyPair, storeMember_public, storeMember_private, jsonKeyPair.zero]
  rfl

/-- The record of the decoder's test vector, `lYlkLRyJ…` for the key `9589642d…`, is the
envelope of that key, so it decodes to it. -/
example : envelope ⟨[0x95, 0x89, 0x64, 0x2d, 0x1c, 0x89, 0x0b, 0x45, 0x2e, 0x3c, 0x40, 0x84, 0xaa,
    0xa1, 0x94, 0x05, 0xa0, 0xc7, 0x8f, 0xca, 0x89, 0xf8, 0x62, 0xe3, 0x66, 0xce, 0xd3, 0x47, 0x02,
    0xa1, 0x19, 0xc6], none⟩ =
      ascii "\x7b\"public\":\"lYlkLRyJC0UuPECEqqGUBaDHj8qJ+GLjZs7TRwKhGcY=\"\x7d" := by
  decide

theorem length_envelope (kp : jsonKeyPair) :
    (envelope kp).length = 13 + (Base64.encode kp.Public).length +
      match kp.Private with
      | none => 0
      | some p => 13 + (Base64.encode p).length := by
  have hpublic : (ascii "public").length = 6 := rfl
  have hprivate : (ascii "private").length = 7 := rfl
  rcases kp with ⟨pub, _ | priv⟩ <;>
    simp [envelope, envelopeMembers, Json.membersText, hpublic, hprivate] <;> omega

theorem length_p256_envelope_le (x y : Nat) {p : Option Bytes} (hp : ∀ q ∈ p, q.length = 32) :
    (envelope ⟨P256.Marshal x y, p⟩).length ≤ MaxKeyInputSize := by
  rcases p with _ | q
  · simp [length_envelope, Base64.length_encode, MaxKeyInputSize, CurveParams.Marshal,
      CurveParams.byteLen, P256]
  · simp [length_envelope, Base64.length_encode, hp q rfl, MaxKeyInputSize, CurveParams.Marshal,
      CurveParams.byteLen, P256]

theorem decodeKeyPair_take_envelope {kp : jsonKeyPair}
    (h : (envelope kp).length ≤ MaxKeyInputSize) :
    decodeKeyPair ((envelope kp).take MaxKeyInputSize) = .ok kp := by
  rw [List.take_of_length_le h, decodeKeyPair_envelope]

theorem decodeKeyPair_append {s : Bytes} {v : Json.Value} (hs : Json.readValue s = .ok v)
    (hv : v.isNumber = false) (t : Bytes) : decodeKeyPair (s ++ t) = decodeKeyPair s := by
  rw [decodeKeyPair, decodeKeyPair, Json.readValue_append t hs hv, hs]

theorem readValue_envelope (kp : jsonKeyPair) :
    Json.readValue (envelope kp) =
      .ok (.object ((envelopeMembers kp).map fun p => (p.1, .string p.2))) :=
  Json.readValue_object (by simp [envelopeMembers]) (PlainMembers_envelopeMembers kp)

/-- The envelope format is a codec for key pairs: decoding inverts it, so distinct key pairs
have distinct envelopes. -/
theorem envelope_codec :
    (∀ kp, decodeKeyPair (envelope kp) = .ok kp) ∧ Function.Injective envelope :=
  ⟨decodeKeyPair_envelope, fun a b h => by
    have := decodeKeyPair_envelope a
    rw [h, decodeKeyPair_envelope] at this
    exact (Except.ok.inj this).symm⟩

/-!
## The input bound truncates, it does not reject
-/

theorem fromRecord_append (kind : String) (c : Crypto) (keytype : String) {s : Bytes}
    {v : Json.Value} (hs : Json.readValue s = .ok v) (hv : v.isNumber = false)
    (hlen : s.length ≤ MaxKeyInputSize) (t : Bytes) :
    fromRecord kind c (some ⟨keytype, s ++ t⟩) = fromRecord kind c (some ⟨keytype, s⟩) := by
  have htake : (s ++ t).take MaxKeyInputSize = s ++ t.take (MaxKeyInputSize - s.length) := by
    rw [List.take_append_eq_append_take, List.take_of_length_le hlen]
  simp only [fromRecord, htake, decodeKeyPair_append hs hv, List.take_of_length_le hlen]

/-- `FromPrivateKey` and `FromPublicKey` read only the first `MaxKeyInputSize` bytes of a
record's value, and of those only its first JSON value: a value that starts with a complete
envelope (or any first value other than a number) within the bound decodes exactly as that
value alone, however long the rest is. -/
theorem FromKey_reads_first_value (c : Crypto) (keytype : String) {s : Bytes} {v : Json.Value}
    (hs : Json.readValue s = .ok v) (hv : v.isNumber = false)
    (hlen : s.length ≤ MaxKeyInputSize) (t : Bytes) :
    FromPrivateKey c (some ⟨keytype, s ++ t⟩) = FromPrivateKey c (some ⟨keytype, s⟩) ∧
      FromPublicKey c (some ⟨keytype, s ++ t⟩) = FromPublicKey c (some ⟨keytype, s⟩) :=
  ⟨fromRecord_append _ c keytype hs hv hlen t, fromRecord_append _ c keytype hs hv hlen t⟩

theorem FromKey_reads_first_value_empty_object :
    FromPrivateKey Crypto.reference (some ⟨KeyTypeEd25519, ascii "\x7b\x7d" ++ [0]⟩) =
        FromPrivateKey Crypto.reference (some ⟨KeyTypeEd25519, ascii "\x7b\x7d"⟩) ∧
      FromPublicKey Crypto.reference (some ⟨KeyTypeEd25519, ascii "\x7b\x7d" ++ [0]⟩) =
        FromPublicKey Crypto.reference (some ⟨KeyTypeEd25519, ascii "\x7b\x7d"⟩) :=
  FromKey_reads_first_value Crypto.reference KeyTypeEd25519 (s := ascii "\x7b\x7d")
    (v := .object []) rfl rfl (by decide) [0]

def p256BaseEnvelope : Bytes :=
  envelope ⟨P256.Marshal P256.Gx P256.Gy, none⟩

theorem length_p256BaseEnvelope : p256BaseEnvelope.length ≤ MaxKeyInputSize :=
  length_p256_envelope_le _ _ (by simp)

theorem FromPublicKey_p256BaseEnvelope_append (c : Crypto) (t : Bytes) :
    FromPublicKey c (some ⟨KeyTypeECDSA_SHA2_P256, p256BaseEnvelope ++ t⟩) =
      .ok (.ecdsaPublicKeyRef (some ⟨some P256, P256.Gx, P256.Gy⟩)) := by
  have hs : Json.readValue p256BaseEnvelope = _ := readValue_envelope _
  rw [FromPublicKey, fromRecord_append _ _ _ hs rfl length_p256BaseEnvelope, p256BaseEnvelope,
    fromRecord_ecdsa (decodeKeyPair_take_envelope length_p256BaseEnvelope)]
  exact unmarshalECDSAKey_public rfl (decodePoint_Marshal P256_IsOnCurve_base P256_P_le)
    P256_IsOnCurve_base

/-- A value of more than `MaxKeyInputSize` bytes, the envelope of a P-256 public key followed by
a mebibyte of spaces, is accepted. -/
theorem oversized_value_accepted :
    MaxKeyInputSize < (p256BaseEnvelope ++ List.replicate MaxKeyInputSize 32).length ∧
      FromPublicKey Crypto.reference
          (some ⟨KeyTypeECDSA_SHA2_P256, p256BaseEnvelope ++ List.replicate MaxKeyInputSize 32⟩) =
        .ok (.ecdsaPublicKeyRef (some ⟨some P256, P256.Gx, P256.Gy⟩)) := by
  refine ⟨?_, FromPublicKey_p256BaseEnvelope_append _ _⟩
  rw [List.length_append, List.length_replicate]
  have : 0 < p256BaseEnvelope.length := by simp [p256BaseEnvelope, envelope]
  omega

/-!
## The RSA stub
-/

/-- An RSA record whose value decodes, whatever it holds, comes back as a nil key with a nil
error from both entry points. -/
theorem FromKey_rsa_nil (c : Crypto) {s : Bytes} {kp : jsonKeyPair}
    (h : decodeKeyPair (s.take MaxKeyInputSize) = .ok kp) :
    FromPrivateKey c (some ⟨KeyTypeRSASSA_PSS_SHA256, s⟩) = .ok .nil ∧
      FromPublicKey c (some ⟨KeyTypeRSASSA_PSS_SHA256, s⟩) = .ok .nil :=
  ⟨fromRecord_rsa h, fromRecord_rsa h⟩

theorem FromKey_rsa_nil_empty_object :
    FromPrivateKey Crypto.reference (some ⟨KeyTypeRSASSA_PSS_SHA256, ascii "\x7b\x7d"⟩) = .ok .nil ∧
      FromPublicKey Crypto.reference (some ⟨KeyTypeRSASSA_PSS_SHA256, ascii "\x7b\x7d"⟩) =
        .ok .nil :=
  @FromKey_rsa_nil Crypto.reference _ jsonKeyPair.zero rfl

end Key
end GoTuf
