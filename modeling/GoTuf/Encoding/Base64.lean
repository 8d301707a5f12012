import GoTuf.Go.Runtime
import Mathlib.Algebra.Order.Group.Nat

/-!
# Standard base64

`encoding/json` stores a `[]byte` field as a base64 string and reads it back with
`base64.StdEncoding.Decode`. This module models that decoder as the character-by-character
machine of its `decodeQuantum` loop, error offsets included, together with the padded encoder,
and proves that decoding inverts encoding.
-/

namespace GoTuf
namespace Base64

def encodeStd : Bytes :=
  ascii "ABCDEFGHIJKLMNOPQRSTUVWXYZabcdefghijklmnopqrstuvwxyz0123456789+/"

def padChar : UInt8 := 61

def decodeMap (c : UInt8) : Option Nat :=
  encodeStd.findIdx? (· == c)

def encodeChar (v : Nat) : UInt8 :=
  encodeStd.getD v 0

def isNewline (c : UInt8) : Bool :=
  c == 10 || c == 13

def skipNewlines : Nat -> Bytes -> Nat × Bytes
  | si, [] => (si, [])
  | si, c :: rest => if isNewline c then skipNewlines (si + 1) rest else (si, c :: rest)

def quantumBytes (j acc : Nat) : Bytes :=
  let val := acc * 64 ^ (4 - j)
  [UInt8.ofNat (val / 65536), UInt8.ofNat (val / 256), UInt8.ofNat val].take (j - 1)

def finishPadded (j acc si : Nat) (rest : Bytes) : Except Nat Bytes :=
  match skipNewlines si rest with
  | (_, []) => .ok (quantumBytes j acc)
  | (si', _ :: _) => .error si'

/-- The loop of `Encoding.Decode` over `decodeQuantum`, one input byte at a time. `si` is the
position of the next byte, and the current quantum holds `j` sextets of value `acc`. An error
is the offset of a `CorruptInputError`. -/
def decodeLoop (len : Nat) : Nat -> Nat -> Nat -> Bytes -> Except Nat Bytes
  | si, j, _, [] => if j = 0 then .ok [] else .error (si - j)
  | si, j, acc, c :: rest =>
      match decodeMap c with
      | some v =>
          if j = 3 then
            (decodeLoop len (si + 1) 0 0 rest).map (quantumBytes 4 (acc * 64 + v) ++ ·)
          else decodeLoop len (si + 1) (j + 1) (acc * 64 + v) rest
      | none =>
          if isNewline c then decodeLoop len (si + 1) j acc rest
          else if c != padChar || j < 2 then .error si
          else if j = 3 then finishPadded 3 acc (si + 1) rest
          else
            match skipNewlines (si + 1) rest with
            | (_, []) => .error len
            | (si', d :: rest') =>
                if d != padChar then .error (si' - 1) else finishPadded 2 acc (si' + 1) rest'

/-- `base64.StdEncoding.Decode`: the decoded bytes, or the offset of the first corrupt byte. -/
def decode (src : Bytes) : Except Nat Bytes :=
  decodeLoop src.length 0 0 0 src

def corruptInputText (offset : Nat) : String :=
  "illegal base64 data at input byte " ++ toString offset

/-- `base64.StdEncoding.EncodeToString`, padded with `=`. -/
def encode : Bytes -> Bytes
  | a :: b :: c :: rest =>
      let v := a.toNat * 65536 + b.toNat * 256 + c.toNat
      [encodeChar (v / 262144), encodeChar (v / 4096 % 64), encodeChar (v / 64 % 64),
        encodeChar (v % 64)] ++ encode rest
  | [a, b] =>
      let v := a.toNat * 65536 + b.toNat * 256
      [encodeChar (v / 262144), encodeChar (v / 4096 % 64), encodeChar (v / 64 % 64), padChar]
  | [a] =>
      let v := a.toNat * 65536
      [encodeChar (v / 262144), encodeChar (v / 4096 % 64), padChar, padChar]
  | [] => []

/-!
## Decoding inverts encoding
-/

theorem decodeMap_encodeChar {v : Nat} (h : v < 64) : decodeMap (encodeChar v) = some v := by
  have key : ∀ w : Fin 64, decodeMap (encodeChar w) = some w := by decide
  exact key ⟨v, h⟩

@[simp] theorem decodeMap_padChar : decodeMap padChar = none := by decide

@[simp] theorem isNewline_padChar : isNewline padChar = false := rfl

private theorem decodeLoop_encodeChar (len si j acc v : Nat) (rest : Bytes) (hv : v < 64)
    (hj : j ≠ 3) :
    decodeLoop len si j acc (encodeChar v :: rest) =
      decodeLoop len (si + 1) (j + 1) (acc * 64 + v) rest := by
  simp [decodeLoop, decodeMap_encodeChar hv, hj]

private theorem sextets_reassemble {v : Nat} (h : v < 16777216) :
    (((0 * 64 + v / 262144) * 64 + v / 4096 % 64) * 64 + v / 64 % 64) * 64 + v % 64 = v := by
  omega

private theorem quantumBytes_four (a b c : UInt8) :
    quantumBytes 4 (a.toNat * 65536 + b.toNat * 256 + c.toNat) = [a, b, c] := by
  have ha : a.toNat < 256 := a.toNat_lt_size
  have hb : b.toNat < 256 := b.toNat_lt_size
  have hc : c.toNat < 256 := c.toNat_lt_size
  simp only [quantumBytes, Nat.sub_self, Nat.pow_zero, Nat.mul_one, List.take, List.cons.injEq,
    and_true]
  refine ⟨UInt8.toNat.inj ?_, UInt8.toNat.inj ?_, UInt8.toNat.inj ?_⟩ <;>
    show _ % 256 = _ <;> omega

theorem decodeLoop_encode_quad (len si : Nat) (a b c : UInt8) (rest : Bytes) :
    decodeLoop len si 0 0 (encode [a, b, c] ++ rest) =
      (decodeLoop len (si + 4) 0 0 rest).map ([a, b, c] ++ ·) := by
  have ha : a.toNat < 256 := a.toNat_lt_size
  have hb : b.toNat < 256 := b.toNat_lt_size
  have hc : c.toNat < 256 := c.toNat_lt_size
  simp only [encode, List.cons_append, List.nil_append]
  rw [decodeLoop_encodeChar _ _ _ _ _ _ (by omega) (by decide),
    decodeLoop_encodeChar _ _ _ _ _ _ (Nat.mod_lt _ (by decide)) (by decide),
    decodeLoop_encodeChar _ _ _ _ _ _ (Nat.mod_lt _ (by decide)) (by decide)]
  have hv : a.toNat * 65536 + b.toNat * 256 + c.toNat < 16777216 := by omega
  simp only [decodeLoop, decodeMap_encodeChar (Nat.mod_lt _ (show 64 > 0 by decide)),
    if_true, sextets_reassemble hv, quantumBytes_four]
  rfl

private theorem decodeLoop_encode_pair (len si : Nat) (a b : UInt8) :
    decodeLoop len si 0 0 (encode [a, b]) = .ok [a, b] := by
  have ha : a.toNat < 256 := a.toNat_lt_size
  have hb : b.toNat < 256 := b.toNat_lt_size
  simp only [encode]
  rw [decodeLoop_encodeChar _ _ _ _ _ _ (by omega) (by decide),
    decodeLoop_encodeChar _ _ _ _ _ _ (Nat.mod_lt _ (by decide)) (by decide),
    decodeLoop_encodeChar _ _ _ _ _ _ (Nat.mod_lt _ (by decide)) (by decide)]
  simp [decodeLoop, finishPadded, skipNewlines, quantumBytes]
  constructor <;> apply UInt8.toNat.inj <;> show _ % 256 = _ <;> omega

private theorem decodeLoop_encode_single (len si : Nat) (a : UInt8) :
    decodeLoop len si 0 0 (encode [a]) = .ok [a] := by
  have ha : a.toNat < 256 := a.toNat_lt_size
  simp only [encode]
  rw [decodeLoop_encodeChar _ _ _ _ _ _ (by omega) (by decide),
    decodeLoop_encodeChar _ _ _ _ _ _ (Nat.mod_lt _ (by decide)) (by decide)]
  simp [decodeLoop, finishPadded, skipNewlines, quantumBytes]
  apply UInt8.toNat.inj
  show _ % 256 = _
  omega

theorem decodeLoop_encode (len si : Nat) (bs : Bytes) : decodeLoop len si 0 0 (encode bs) = .ok bs := by
  induction bs using encode.induct generalizing si with
  | case1 a b c rest ih =>
      rw [show encode (a :: b :: c :: rest) = encode [a, b, c] ++ encode rest by
        simp [encode], decodeLoop_encode_quad, ih]
      rfl
  | case2 a b => exact decodeLoop_encode_pair len si a b
  | case3 a => exact decodeLoop_encode_single len si a
  | case4 => rfl

/-- Decoding inverts encoding: a `[]byte` field written by `json.Marshal` reads back unchanged. -/
theorem decode_encode (bs : Bytes) : decode (encode bs) = .ok bs :=
  decodeLoop_encode _ 0 bs

theorem length_encode (bs : Bytes) : (encode bs).length = 4 * ((bs.length + 2) / 3) := by
  induction bs using encode.induct with
  | case1 a b c rest ih =>
      simp only [encode, List.length_append, ih, List.length_cons, List.length_nil]
      omega
  | _ => simp [encode]

end Base64
end GoTuf
