import GoTuf.Signatures.Api

/-!
# The Ed25519 signer

`ed25519Signer` signs with pure Ed25519, without a pre-hash, and verifies with `ed25519.Verify`.
It accepts private keys of 64 bytes and public keys of 32, by value or by pointer.
-/

namespace GoTuf
namespace Signatures

/-- `ed25519Signer`, which has no fields; its methods do not read their receiver. -/
structure ed25519Signer where
  deriving DecidableEq, Repr

namespace ed25519Signer

variable (c : Crypto)

def Name : String := "ed25519"

/-- `Sign` from the length check on, once the type switch has found the private key `pk`. -/
def signWithKey (msg pk : Bytes) (opts : List SignOption) : Outcome Bytes :=
  if pk.length ≠ ed25519.PrivateKeySize then
    .error (wrapSentinel "ed25519: invalid key size: " .invalidKey)
  else
    let _dopts := applySignOptions c opts
    .ok (c.ed25519Sign pk msg)

def Sign (msg : Bytes) (key : KeyValue) (opts : List SignOption) : Outcome Bytes :=
  if msg.length = 0 then
    .error (wrapSentinel "ed25519: provided msg is nil or empty: " .invalidArgument)
  else if key = .nil then
    .error (wrapSentinel "ed25519: provided key is nil: " .invalidKey)
  else
    match key with
    | .ed25519PrivateKeyRef (some pk) | .ed25519PrivateKey pk => signWithKey c msg pk opts
    | .ed25519PrivateKeyRef none => .panic nilDereference
    | _ =>
        .error (wrapSentinel ("ed25519: unsupported private key type (" ++ key.typeName ++ "): ")
          .invalidKey)

/-- `Verify` from the length check on, once the type switch has found the public key `pub`. -/
def verifyWithKey (msg signature pub : Bytes) : Outcome Unit :=
  if pub.length ≠ ed25519.PublicKeySize then
    .error (wrapSentinel "ed25519: invalid key size: " .invalidKey)
  else if !c.ed25519Verify pub msg signature then .error (.sentinel .invalidSignature)
  else .ok ()

/-- `Verify(msg, signature, key)`; `ok ()` is a nil error. -/
def Verify (msg signature : Bytes) (key : KeyValue) : Outcome Unit :=
  if msg.length = 0 then
    .error (wrapSentinel "ed25519: provided msg is nil or empty: " .invalidArgument)
  else if signature.length = 0 then
    .error (wrapSentinel "ed25519: provided signature is nil or empty: " .invalidArgument)
  else if key = .nil then
    .error (wrapSentinel "ed25519: provided key is nil: " .invalidKey)
  else
    match key with
    | .ed25519PublicKeyRef (some pub) | .ed25519PublicKey pub => verifyWithKey c msg signature pub
    | .ed25519PublicKeyRef none => .panic nilDereference
    | _ =>
        .error (wrapSentinel ("ed25519: unsupported public key type (" ++ key.typeName ++ "): ")
          .invalidKey)

/-!
## What each method does with a key of its type
-/

variable {c} {msg signature : Bytes} {key : KeyValue} {opts : List SignOption}

theorem Sign_of_HoldsEd25519Private {pk : Bytes} (hmsg : msg ≠ [])
    (hk : key.HoldsEd25519Private pk) : Sign c msg key opts = signWithKey c msg pk opts := by
  rcases hk with rfl | rfl <;> simp [Sign, hmsg]

theorem Verify_of_HoldsEd25519Public {pub : Bytes} (hmsg : msg ≠ []) (hsig : signature ≠ [])
    (hk : key.HoldsEd25519Public pub) :
    Verify c msg signature key = verifyWithKey c msg signature pub := by
  rcases hk with rfl | rfl <;> simp [Verify, hmsg, hsig]

theorem Sign_eq_ok {out : Bytes} (h : Sign c msg key opts = .ok out) :
    ∃ pk, msg ≠ [] ∧ key.HoldsEd25519Private pk ∧ pk.length = ed25519.PrivateKeySize ∧
      out = c.ed25519Sign pk msg := by
  unfold Sign signWithKey at h
  split_ifs at h with h1 h2
  split at h
  all_goals first
    | cases h
    | skip
  all_goals
    split_ifs at h with h3
    cases h
  · exact ⟨_, by simpa using h1, .inr rfl, by simpa using h3, rfl⟩
  · exact ⟨_, by simpa using h1, .inl rfl, by simpa using h3, rfl⟩

theorem Verify_eq_ok (h : Verify c msg signature key = .ok ()) :
    ∃ pub, msg ≠ [] ∧ key.HoldsEd25519Public pub ∧ pub.length = ed25519.PublicKeySize ∧
      c.ed25519Verify pub msg signature = true := by
  unfold Verify verifyWithKey at h
  split_ifs at h with h1 h2 h3
  split at h
  all_goals first
    | cases h
    | skip
  all_goals
    split_ifs at h with h4 h5
    simp only [Bool.not_eq_true', Bool.not_eq_false] at h5
  · exact ⟨_, by simpa using h1, .inr rfl, by simpa using h4, h5⟩
  · exact ⟨_, by simpa using h1, .inl rfl, by simpa using h4, h5⟩

end ed25519Signer

end Signatures
end GoTuf
