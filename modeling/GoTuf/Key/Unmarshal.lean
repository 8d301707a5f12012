import GoTuf.Go.Crypto
import GoTuf.Key.JsonKeyPair

/-!
# Decoding TUF key records

`FromPrivateKey` and `FromPublicKey` decode the value of a key record, read through an
`io.LimitReader` of `MaxKeyInputSize` bytes, into a `jsonKeyPair`, and then dispatch on the
record's type: Ed25519 keys are checked against the low-order blacklist and, with a private
part, against the public key derived from its seed; ECDSA keys are P-256 points, checked on the
curve and, with a private part, against the point its scalar gives; RSA is a stub.
-/

namespace GoTuf
namespace Key

open Elliptic

def MaxKeyInputSize : Nat := 1024 * 1024

/-- Modelled from the spec: `data.KeyTypeEd25519`. -/
def KeyTypeEd25519 : String := "ed25519"

/-- Modelled from the spec: `data.KeyTypeECDSA_SHA2_P256`. -/
def KeyTypeECDSA_SHA2_P256 : String := "ecdsa-sha2-nistp256"

/-- Modelled from the spec: `data.KeyTypeRSASSA_PSS_SHA256`. -/
def KeyTypeRSASSA_PSS_SHA256 : String := "rsassa-pss-sha256"

/-- The fields of `data.PrivateKey` and `data.PublicKey` the decoder reads: `Type` (written
`keytype`) and `Value` (written `keyval`). -/
structure Record where
  keytype : String
  keyval : Bytes
  deriving DecidableEq, Repr

/-- `%q` of a string; characters past U+00FF are written as they are. -/
def quote (s : String) : String :=
  "\"" ++ String.join (s.toList.map fun ch =>
    if ch = '"' then "\\\"" else if ch.toNat < 256 then quoteRune ch.toNat
    else String.singleton ch) ++ "\""

def curveByteSize (params : CurveParams) : Nat :=
  params.BitSize / 8 + if params.BitSize % 8 ≠ 0 then 1 else 0

def unmarshalEd25519Key (c : Crypto) : Option jsonKeyPair -> Except GoError KeyValue
  | none => .error (.message "key: nil decoded key components")
  | some raw =>
      if raw.Public.length ≠ ed25519.PublicKeySize then
        .error (.message "key: unexpected public key length for ed25519 key")
      else if c.isEdLowOrder raw.Public then
        .error (.message "key: the public key is blacklisted")
      else
        match raw.Private with
        | none => .ok (.ed25519PublicKey raw.Public)
        | some priv =>
            if priv.length ≠ ed25519.PrivateKeySize then
              .error (.message "key: unexpected public key length for ed25519 key")
            else
              match c.generateKey priv with
              | .error err =>
                  .error (.wrap "key: unable to derive public key from private key: " err)
              | .ok pub =>
                  if raw.Public ≠ pub then .error (.message "key: public and private keys doesn't match")
                  else .ok (.ed25519PrivateKey priv)

/-- The switch of `unmarshalECDSAKey` on the first byte of the public key, and the `nil` check
after it. -/
def decodePoint (curve : CurveParams) : Bytes -> Except GoError (Nat × Nat)
  | [] => .error (.message "key: invalid public key size")
  | t :: rest =>
      let xy :=
        if t = 2 ∨ t = 3 then some (curve.UnmarshalCompressed (t :: rest))
        else if t = 4 then some (curve.Unmarshal (t :: rest))
        else none
      match xy with
      | none => .error (.message "key: unsupported ecdsa public key encoding")
      | some none => .error (.message "key: unable to decode ecdsa public key")
      | some (some p) => .ok p

def unmarshalECDSAKey : Option jsonKeyPair -> Except GoError KeyValue
  | none => .error (.message "key: nil decoded key components")
  | some raw =>
      let curve := P256
      let byteSize := curveByteSize curve
      match decodePoint curve raw.Public with
      | .error err => .error err
      | .ok (x, y) =>
          if !curve.IsOnCurve x y then
            .error (.message "key: ecdsa public key point is not on the associated curve")
          else
            let pub : EcdsaPublicKey := ⟨some curve, x, y⟩
            match raw.Private with
            | none => .ok (.ecdsaPublicKeyRef (some pub))
            | some priv =>
                if priv.length ≠ byteSize then
                  .error (.message "key: invalid ecdsa private key length for the associated curve")
                else
                  let d := setBytes priv
                  let dxy := curve.ScalarBaseMult priv
                  if dxy.1 ≠ x ∨ dxy.2 ≠ y then
                    .error (.message "key: public and private keys doesn't match")
                  else .ok (.ecdsaPrivateKeyRef (some ⟨pub, d⟩))

/-- `unmarshalRSAKey`, a stub. -/
def unmarshalRSAKey : Option jsonKeyPair -> Except GoError KeyValue
  | none => .error (.message "key: nil decoded key components")
  | some _ => .ok .nil

/-- `FromPrivateKey` and `FromPublicKey`, which differ only in the word `kind` in two of their
messages. -/
def fromRecord (kind : String) (c : Crypto) : Option Record -> Except GoError KeyValue
  | none => .error (.message ("key: invalid " ++ kind ++ " key object"))
  | some r =>
      match decodeKeyPair (r.keyval.take MaxKeyInputSize) with
      | .error err => .error (.wrap "key: unable to decode the key components: " err)
      | .ok key =>
          if r.keytype = KeyTypeEd25519 then unmarshalEd25519Key c (some key)
          else if r.keytype = KeyTypeECDSA_SHA2_P256 then unmarshalECDSAKey (some key)
          else if r.keytype = KeyTypeRSASSA_PSS_SHA256 then unmarshalRSAKey (some key)
          else .error (.message ("key: unsupported " ++ kind ++ " key type " ++ quote r.keytype))

def FromPrivateKey (c : Crypto) (tufPk : Option Record) : Except GoError KeyValue :=
  fromRecord "private" c tufPk

def FromPublicKey (c : Crypto) (tufPk : Option Record) : Except GoError KeyValue :=
  fromRecord "public" c tufPk

/-!
## What each decoder returns
-/

section Dispatch

variable {kind : String} {c : Crypto} {v : Bytes} {kp : jsonKeyPair}

theorem fromRecord_ed25519 (h : decodeKeyPair (v.take MaxKeyInputSize) = .ok kp) :
    fromRecord kind c (some ⟨KeyTypeEd25519, v⟩) = unmarshalEd25519Key c (some kp) := by
  simp [fromRecord, h]

theorem fromRecord_ecdsa (h : decodeKeyPair (v.take MaxKeyInputSize) = .ok kp) :
    fromRecord kind c (some ⟨KeyTypeECDSA_SHA2_P256, v⟩) = unmarshalECDSAKey (some kp) := by
  simp [fromRecord, h, KeyTypeECDSA_SHA2_P256, KeyTypeEd25519]

theorem fromRecord_rsa (h : decodeKeyPair (v.take MaxKeyInputSize) = .ok kp) :
    fromRecord kind c (some ⟨KeyTypeRSASSA_PSS_SHA256, v⟩) = unmarshalRSAKey (some kp) := by
  simp [fromRecord, h, KeyTypeRSASSA_PSS_SHA256, KeyTypeECDSA_SHA2_P256, KeyTypeEd25519]

theorem fromRecord_eq_ok {r : Record} {k : KeyValue} (h : fromRecord kind c (some r) = .ok k) :
    ∃ kp, decodeKeyPair (r.keyval.take MaxKeyInputSize) = .ok kp ∧
      (r.keytype = KeyTypeEd25519 ∧ unmarshalEd25519Key c (some kp) = .ok k ∨
        r.keytype = KeyTypeECDSA_SHA2_P256 ∧ unmarshalECDSAKey (some kp) = .ok k ∨
        r.keytype = KeyTypeRSASSA_PSS_SHA256 ∧ unmarshalRSAKey (some kp) = .ok k) := by
  simp only [fromRecord] at h
  split at h
  · cases h
  rename_i kp hkp
  refine ⟨kp, hkp, ?_⟩
  split_ifs at h with h1 h2 h3
  · exact .inl ⟨h1, h⟩
  · exact .inr (.inl ⟨h2, h⟩)
  · exact .inr (.inr ⟨h3, h⟩)

end Dispatch

theorem unmarshalEd25519Key_eq_ok {c : Crypto} {raw : jsonKeyPair} {k : KeyValue}
    (h : unmarshalEd25519Key c (some raw) = .ok k) :
    raw.Public.length = ed25519.PublicKeySize ∧ c.isEdLowOrder raw.Public = false ∧
      (raw.Private = none ∧ k = .ed25519PublicKey raw.Public ∨
        ∃ priv, raw.Private = some priv ∧ priv.length = ed25519.PrivateKeySize ∧
          c.ed25519Public (priv.take 32) = raw.Public ∧ k = .ed25519PrivateKey priv) := by
  unfold unmarshalEd25519Key at h
  simp only [ne_eq, ite_not] at h
  split_ifs at h with h1 h2
  refine ⟨h1, by simpa using h2, ?_⟩
  split at h
  · cases h
    exact .inl ⟨‹_›, rfl⟩
  · rename_i priv hpriv
    split_ifs at h with h3
    rw [Crypto.generateKey_of_le c (by rw [h3]; decide)] at h
    simp only at h
    split_ifs at h with h4
    cases h
    exact .inr ⟨priv, hpriv, h3, h4.symm, rfl⟩

theorem unmarshalEd25519Key_private {c : Crypto} {raw : jsonKeyPair} {priv : Bytes}
    (hlen : raw.Public.length = ed25519.PublicKeySize) (hlow : c.isEdLowOrder raw.Public = false)
    (hpriv : raw.Private = some priv) (hplen : priv.length = ed25519.PrivateKeySize)
    (hder : c.ed25519Public (priv.take 32) = raw.Public) :
    unmarshalEd25519Key c (some raw) = .ok (.ed25519PrivateKey priv) := by
  simp [unmarshalEd25519Key, hlen, hlow, hpriv, hplen,
    Crypto.generateKey_of_le c (by rw [hplen]; decide), hder]

theorem decodePoint_Marshal {curve : CurveParams} {x y : Nat} (h : curve.IsOnCurve x y = true)
    (hP : curve.P ≤ 256 ^ curve.byteLen) : decodePoint curve (curve.Marshal x y) = .ok (x, y) := by
  have := curve.Unmarshal_Marshal h hP
  unfold CurveParams.Marshal at this ⊢
  simp [decodePoint, this]

theorem decodePoint_IsOnCurve {curve : CurveParams} (hP : 0 < curve.P) {b : Bytes} {x y : Nat}
    (h : decodePoint curve b = .ok (x, y)) : curve.IsOnCurve x y = true := by
  cases b with
  | nil => cases h
  | cons t rest =>
    unfold decodePoint at h
    dsimp only at h
    by_cases h23 : t = 2 ∨ t = 3
    · rw [if_pos h23] at h
      split at h <;> try cases h
      exact curve.UnmarshalCompressed_IsOnCurve hP (Option.some.inj ‹_›)
    · rw [if_neg h23] at h
      by_cases h4 : t = 4
      · rw [if_pos h4] at h
        split at h <;> try cases h
        exact curve.Unmarshal_IsOnCurve (Option.some.inj ‹_›)
      · rw [if_neg h4] at h
        cases h

theorem unmarshalECDSAKey_eq_ok {raw : jsonKeyPair} {k : KeyValue}
    (h : unmarshalECDSAKey (some raw) = .ok k) :
    ∃ x y, decodePoint P256 raw.Public = .ok (x, y) ∧ P256.IsOnCurve x y = true ∧
      (raw.Private = none ∧ k = .ecdsaPublicKeyRef (some ⟨some P256, x, y⟩) ∨
        ∃ priv, raw.Private = some priv ∧ priv.length = curveByteSize P256 ∧
          P256.ScalarBaseMult priv = (x, y) ∧
          k = .ecdsaPrivateKeyRef (some ⟨⟨some P256, x, y⟩, setBytes priv⟩)) := by
  simp only [unmarshalECDSAKey] at h
  split at h
  · cases h
  rename_i x y hxy
  simp only [Bool.not_eq_true', ne_eq, ite_not] at h
  split_ifs at h with h1
  refine ⟨x, y, hxy, by simpa using h1, ?_⟩
  split at h
  · cases h
    exact .inl ⟨‹_›, rfl⟩
  · rename_i priv hpriv
    split_ifs at h with h2 h3
    cases h
    simp only [not_or, not_not] at h3
    exact .inr ⟨priv, hpriv, h2, Prod.ext h3.1 h3.2, rfl⟩

theorem unmarshalECDSAKey_public {raw : jsonKeyPair} {x y : Nat} (hpriv : raw.Private = none)
    (hxy : decodePoint P256 raw.Public = .ok (x, y)) (hon : P256.IsOnCurve x y = true) :
    unmarshalECDSAKey (some raw) = .ok (.ecdsaPublicKeyRef (some ⟨some P256, x, y⟩)) := by
  simp [unmarshalECDSAKey, hxy, hon, hpriv]

theorem unmarshalECDSAKey_private {raw : jsonKeyPair} {x y : Nat} {priv : Bytes}
    (hpriv : raw.Private = some priv) (hlen : priv.length = curveByteSize P256)
    (hxy : decodePoint P256 raw.Public = .ok (x, y)) (hon : P256.IsOnCurve x y = true)
    (hd : P256.ScalarBaseMult priv = (x, y)) :
    unmarshalECDSAKey (some raw) =
      .ok (.ecdsaPrivateKeyRef (some ⟨⟨some P256, x, y⟩, setBytes priv⟩)) := by
  simp [unmarshalECDSAKey, hxy, hon, hpriv, hlen, hd]

theorem unmarshalECDSAKey_Marshal {x y d : Nat} (hon : P256.IsOnCurve x y = true)
    (hd : d < 256 ^ 32) (hxy : P256.ScalarBaseMult (bigEndian 32 d) = (x, y)) :
    unmarshalECDSAKey (some ⟨P256.Marshal x y, some (bigEndian 32 d)⟩) =
      .ok (.ecdsaPrivateKeyRef (some ⟨⟨some P256, x, y⟩, d⟩)) := by
  rw [@unmarshalECDSAKey_private ⟨P256.Marshal x y, some (bigEndian 32 d)⟩ x y _ rfl
    (length_bigEndian 32 d) (decodePoint_Marshal hon P256_P_le) hon hxy, setBytes_bigEndian hd]

/-!
## The two entry points and their errors
-/

section Errors

variable {kind : String} {c : Crypto} {e : GoError}

theorem unmarshalEd25519Key_error_Is_eof {raw : Option jsonKeyPair}
    (h : unmarshalEd25519Key c raw = .error e) : e.Is .eof = false := by
  unfold unmarshalEd25519Key at h
  repeat' split at h
  all_goals cases h <;> first | rfl | skip
  rename_i hlen _ _ hgen
  simp only [Crypto.generateKey] at hgen
  split_ifs at hgen with h32
  all_goals
    simp only [ed25519.PrivateKeySize, ne_eq, not_not] at hlen
    omega

theorem decodePoint_error_Is {curve : CurveParams} {b : Bytes}
    (h : decodePoint curve b = .error e) (t : Sentinel) : e.Is t = false := by
  unfold decodePoint at h
  dsimp only at h
  repeat' split at h
  all_goals cases h <;> rfl

theorem unmarshalECDSAKey_error_Is {raw : Option jsonKeyPair}
    (h : unmarshalECDSAKey raw = .error e) (t : Sentinel) : e.Is t = false := by
  unfold unmarshalECDSAKey at h
  dsimp only at h
  repeat' split at h
  all_goals cases h <;> first | rfl | exact decodePoint_error_Is ‹_› t

/-- `errors.Is(err, io.EOF)` holds of an error of `FromPrivateKey` or `FromPublicKey` exactly when
the first `MaxKeyInputSize` bytes of the value are whitespace: a blank value is reported as
`io.EOF`, and no later step, not even `ed25519.GenerateKey` reading the seed, gives it. -/
theorem fromRecord_Is_eof_iff (kind : String) (c : Crypto) (r : Record) :
    (∃ e, fromRecord kind c (some r) = .error e ∧ e.Is .eof = true) ↔
      Json.skipSpace (r.keyval.take MaxKeyInputSize) = [] := by
  constructor
  · rintro ⟨e, h, he⟩
    simp only [fromRecord] at h
    split at h
    · rename_i err herr
      cases h
      exact (decodeKeyPair_error_Is_eof herr).1 he
    split_ifs at h
    · rw [unmarshalEd25519Key_error_Is_eof h] at he
      cases he
    · rw [unmarshalECDSAKey_error_Is h] at he
      cases he
    all_goals cases h
    cases he
  · intro hs
    refine ⟨.wrap "key: unable to decode the key components: " (.sentinel .eof), ?_, rfl⟩
    simp [fromRecord, decodeKeyPair, (Json.readValue_eq_eof_iff _).2 hs, readError]
end Errors

end Key
end GoTuf
