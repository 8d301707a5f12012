import GoTuf.Encoding.Base64
import GoTuf.Encoding.Json

/-!
# Decoding a key record's value into `jsonKeyPair`

`FromPrivateKey` and `FromPublicKey` read a record's value with
`json.NewDecoder(r).Decode(&key)` into a zero `jsonKeyPair`. The decoder reads the first JSON
value of the stream (`GoTuf.Encoding.Json`) and stores it into the struct: object members are
matched to the fields `public` and `private` without regard to ASCII case, other members are
skipped, a `[]byte` field takes a base64 string, `null` or an array of bytes, and any value of
another kind is an `UnmarshalTypeError`. The first error stored is the one `Decode` returns.
-/

namespace GoTuf
namespace Key

/-- `jsonKeyPair`; `Private` is `none` for a nil pointer. -/
structure jsonKeyPair where
  Public : Bytes
  Private : Option Bytes
  deriving DecidableEq, Repr

/-!
## Error texts
-/

def hex2 (n : Nat) : String :=
  let d := Nat.toDigits 16 n
  String.mk (List.replicate (2 - d.length) '0' ++ d)

def quoteRune (r : Nat) : String :=
  if r = 92 then "\\\\"
  else if (32 ≤ r ∧ r < 127) ∨ (161 ≤ r ∧ r ≤ 255 ∧ r ≠ 173) then String.singleton (Char.ofNat r)
  else if r = 7 then "\\a" else if r = 8 then "\\b" else if r = 12 then "\\f"
  else if r = 10 then "\\n" else if r = 13 then "\\r" else if r = 9 then "\\t"
  else if r = 11 then "\\v"
  else if r < 32 ∨ r = 127 then "\\x" ++ hex2 r
  else "\\u00" ++ hex2 r

def quoteChar (c : UInt8) : String :=
  if c = 39 then "'\\''"
  else if c = 34 then "'\"'"
  else "'" ++ quoteRune c.toNat ++ "'"

/-- The error `Decoder.Decode` returns when reading the first value fails. -/
def readError : Json.ReadError -> GoError
  | .eof => .sentinel .eof
  | .unexpectedEOF => .sentinel .unexpectedEOF
  | .invalid c context => .message ("invalid character " ++ quoteChar c ++ " " ++ context)
  | .outOfFuel => .message "out of fuel"

def fieldTypeError (value field type : String) : GoError :=
  .message ("json: cannot unmarshal " ++ value ++ " into Go struct field jsonKeyPair." ++ field ++
    " of type " ++ type)

def typeError (value : String) : GoError :=
  .message ("json: cannot unmarshal " ++ value ++ " into Go value of type key.jsonKeyPair")

/-!
## Storing a value
-/

def parseUint (lit : Bytes) : Option Nat :=
  if lit ≠ [] ∧ lit.all Json.isDigit then some (lit.foldl (fun n d => 10 * n + (d.toNat - 48)) 0)
  else none

def storeByte (field : String) : Json.Value -> Except GoError UInt8
  | .null => .ok 0
  | .number lit =>
      match parseUint lit with
      | some n => if n ≤ 255 then .ok (UInt8.ofNat n)
          else .error (fieldTypeError ("number " ++ asciiText lit) field "uint8")
      | none => .error (fieldTypeError ("number " ++ asciiText lit) field "uint8")
  | .bool _ => .error (fieldTypeError "bool" field "uint8")
  | .string _ => .error (fieldTypeError "string" field "uint8")
  | .array _ => .error (fieldTypeError "array" field "uint8")
  | .object _ => .error (fieldTypeError "object" field "uint8")

/-- A JSON value stored into a `[]byte` field; `none` is the nil slice `null` stores. -/
def storeBytes (field : String) : Json.Value -> Except GoError (Option Bytes)
  | .null => .ok none
  | .string s =>
      match Base64.decode s with
      | .ok b => .ok (some b)
      | .error offset => .error (.message (Base64.corruptInputText offset))
  | .array elements => (elements.mapM (storeByte field)).map some
  | .number _ => .error (fieldTypeError "number" field "[]uint8")
  | .bool _ => .error (fieldTypeError "bool" field "[]uint8")
  | .object _ => .error (fieldTypeError "object" field "[]uint8")

def foldByte (c : UInt8) : UInt8 :=
  if 97 ≤ c.toNat ∧ c.toNat ≤ 122 then c - 32 else c

def namesField (key : Bytes) (name : String) : Bool :=
  key.map foldByte == (ascii name).map foldByte

/-- One object member stored into the struct. -/
def storeMember (kp : jsonKeyPair) : Bytes × Json.Value -> Except GoError jsonKeyPair
  | (key, v) =>
      if namesField key "public" then
        (storeBytes "public" v).map fun b => { kp with Public := b.getD [] }
      else if namesField key "private" then
        (storeBytes "private" v).map fun b => { kp with Private := b }
      else .ok kp

def jsonKeyPair.zero : jsonKeyPair := ⟨[], none⟩

/-- The first value of the stream stored into a zero `jsonKeyPair`. -/
def storeKeyPair : Json.Value -> Except GoError jsonKeyPair
  | .null => .ok .zero
  | .object members => members.foldlM storeMember .zero
  | .string _ => .error (typeError "string")
  | .number _ => .error (typeError "number")
  | .bool _ => .error (typeError "bool")
  | .array _ => .error (typeError "array")

/-- `json.NewDecoder(r).Decode(&key)` for a zero `key`, `r` yielding `stream`. -/
def decodeKeyPair (stream : Bytes) : Except GoError jsonKeyPair :=
  match Json.readValue stream with
  | .error e => .error (readError e)
  | .ok v => storeKeyPair v

/-!
## Which member a field takes
-/

theorem storeBytes_encode (field : String) (b : Bytes) :
    storeBytes field (.string (Base64.encode b)) = .ok (some b) := by
  simp [storeBytes, Base64.decode, Base64.decodeLoop_encode]

theorem storeMember_public_of_namesField {key : Bytes} (hk : namesField key "public" = true)
    (kp : jsonKeyPair) (b : Bytes) :
    storeMember kp (key, .string (Base64.encode b)) = .ok { kp with Public := b } := by
  simp [storeMember, hk, storeBytes_encode]
  rfl

theorem storeMember_private_of_namesField {key : Bytes} (hpub : namesField key "public" = false)
    (hk : namesField key "private" = true) (kp : jsonKeyPair) (b : Bytes) :
    storeMember kp (key, .string (Base64.encode b)) = .ok { kp with Private := some b } := by
  simp [storeMember, hpub, hk, storeBytes_encode]
  rfl

section Sentinels

variable {field : String} {e : GoError}

theorem storeByte_error_Is {v : Json.Value} (h : storeByte field v = .error e) (t : Sentinel) :
    e.Is t = false := by
  unfold storeByte at h
  repeat' split at h
  all_goals cases h <;> rfl

theorem mapM_storeByte_error_Is {l : List Json.Value} (h : l.mapM (storeByte field) = .error e)
    (t : Sentinel) : e.Is t = false := by
  induction l with
  | nil => cases h
  | cons v l ih =>
      rw [List.mapM_cons] at h
      rcases hv : storeByte field v with e' | b
      · rw [hv] at h
        cases h
        exact storeByte_error_Is hv t
      · rw [hv] at h
        rcases hl : l.mapM (storeByte field) with e' | bs
        · rw [hl] at h
          cases h
          exact ih hl
        · rw [hl] at h
          cases h

theorem storeBytes_error_Is {v : Json.Value} (h : storeBytes field v = .error e) (t : Sentinel) :
    e.Is t = false := by
  unfold storeBytes at h
  repeat' split at h
  any_goals cases h <;> rfl
  rcases hm : List.mapM (storeByte field) _ with e' | bs <;> rw [hm] at h <;> cases h
  exact mapM_storeByte_error_Is hm t

theorem storeMember_error_Is {kp : jsonKeyPair} {key : Bytes} {v : Json.Value}
    (h : storeMember kp (key, v) = .error e) (t : Sentinel) : e.Is t = false := by
  simp only [storeMember] at h
  split_ifs at h
  all_goals
    rcases hb : storeBytes _ v with e' | b <;> rw [hb] at h <;> cases h
    exact storeBytes_error_Is hb t

theorem foldlM_storeMember_error_Is {ms : List (Bytes × Json.Value)} {kp : jsonKeyPair}
    (h : ms.foldlM storeMember kp = .error e) (t : Sentinel) : e.Is t = false := by
  induction ms generalizing kp with
  | nil => cases h
  | cons m ms ih =>
      rw [List.foldlM_cons] at h
      rcases hm : storeMember kp m with e' | kp' <;> rw [hm] at h
      · cases h
        exact storeMember_error_Is hm t
      · exact ih h

theorem storeKeyPair_error_Is {v : Json.Value} (h : storeKeyPair v = .error e) (t : Sentinel) :
    e.Is t = false := by
  unfold storeKeyPair at h
  split at h
  any_goals cases h <;> rfl
  exact foldlM_storeMember_error_Is h t

theorem decodeKeyPair_error_Is_eof {s : Bytes} (h : decodeKeyPair s = .error e) :
    e.Is .eof = true ↔ Json.skipSpace s = [] := by
  unfold decodeKeyPair at h
  split at h
  · rename_i err hr
    cases h
    rw [← Json.readValue_eq_eof_iff, hr]
    cases err <;> simp [readError]
  · rename_i v hr
    rw [storeKeyPair_error_Is h, ← Json.readValue_eq_eof_iff, hr]
    exact iff_of_false Bool.false_ne_true nofun

end Sentinels

end Key
end GoTuf
