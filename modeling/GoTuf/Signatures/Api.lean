import GoTuf.Go.Crypto

/-!
# The signer contract

`Signer`, `Verifier` and `Algorithm` are implemented by the Ed25519 and ECDSA signers; the
package errors are the sentinels of `GoTuf.Go.Runtime`. Signing takes functional options, whose
only field is the randomness source.
-/

namespace GoTuf
namespace Signatures

structure SignOptions where
  randSource : Reader

/-- `SignOption`: a function that updates the options. -/
def SignOption : Type := SignOptions -> SignOptions

def withSignRandomSource (r : Reader) : SignOption :=
  fun o => { o with randSource := r }

/-- The options a signer uses: `rand.Reader` by default, then each option applied in turn. -/
def applySignOptions (c : Crypto) (opts : List SignOption) : SignOptions :=
  opts.foldl (fun o f => f o) { randSource := c.randReader }

theorem foldl_withSignRandomSource (o : SignOptions) (rs : List Reader) :
    (rs.map withSignRandomSource).foldl (fun o f => f o) o = ⟨rs.getLastD o.randSource⟩ := by
  induction rs generalizing o with
  | nil => rfl
  | cons r rs ih =>
      rw [List.map_cons, List.foldl_cons, List.getLastD_cons]
      exact ih _

/-- The errors of the checks on the arguments, `ErrInvalidKey` and `ErrInvalidArgument`. -/
def argumentSentinels : List Sentinel :=
  [.invalidKey, .invalidArgument]

def wrapSentinel (context : String) (s : Sentinel) : GoError :=
  .wrap context (.sentinel s)

@[simp] theorem wrapSentinel_Is (context : String) (s t : Sentinel) :
    (wrapSentinel context s).Is t = (s == t) := rfl

end Signatures
end GoTuf
