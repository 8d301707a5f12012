import GoTuf.Go.Runtime

/-!
# Reading one JSON value from a stream

`json.NewDecoder(r).Decode(&v)` reads the first JSON value of the stream `r`: it skips
whitespace, scans one value with the grammar of `encoding/json`'s scanner, stops at the end of
that value without looking at what follows (one byte of lookahead ends a number), and only then
stores the value into `v`. This module models the reading half as a recursive-descent reader
over bytes whose accepted texts, errors and stopping points are the scanner's; storing into the
key-pair struct is `GoTuf.Key.JsonKeyPair`.

The reader carries a fuel argument; `readValue` gives it two units per input byte and one more,
which is always enough (`readValue_ne_outOfFuel`).
-/

namespace GoTuf
namespace Json

/-- A JSON value. Strings hold their bytes as `unquoteBytes` makes them, numbers their literal
text. -/
inductive Value
  | null
  | bool (b : Bool)
  | number (literal : Bytes)
  | string (contents : Bytes)
  | array (elements : List Value)
  | object (members : List (Bytes × Value))
  deriving Repr

inductive ScanError
  | eof
  | invalid (c : UInt8) (context : String)
  | outOfFuel
  deriving DecidableEq, Repr

/-- The nesting limit `maxNestingDepth` of the scanner. -/
def maxNestingDepth : Nat := 10000

def isSpace (c : UInt8) : Bool :=
  c == 32 || c == 9 || c == 10 || c == 13

def isDigit (c : UInt8) : Bool :=
  48 ≤ c.toNat && c.toNat ≤ 57

def hexValue (c : UInt8) : Option Nat :=
  let n := c.toNat
  if 48 ≤ n ∧ n ≤ 57 then some (n - 48)
  else if 97 ≤ n ∧ n ≤ 102 then some (n - 87)
  else if 65 ≤ n ∧ n ≤ 70 then some (n - 55)
  else none

def simpleEscape (c : UInt8) : Option UInt8 :=
  if c = 34 then some 34 else if c = 92 then some 92 else if c = 47 then some 47
  else if c = 98 then some 8 else if c = 102 then some 12 else if c = 110 then some 10
  else if c = 114 then some 13 else if c = 116 then some 9 else none

/-- `utf8.EncodeRune`; surrogates and values past the last code point become U+FFFD. -/
def encodeRune (r : Nat) : Bytes :=
  if r < 0x80 then [UInt8.ofNat r]
  else if r < 0x800 then [UInt8.ofNat (0xC0 + r / 64), UInt8.ofNat (0x80 + r % 64)]
  else if (0xD800 ≤ r ∧ r < 0xE000) ∨ 0x10FFFF < r then [0xEF, 0xBF, 0xBD]
  else if r < 0x10000 then
    [UInt8.ofNat (0xE0 + r / 4096), UInt8.ofNat (0x80 + r / 64 % 64), UInt8.ofNat (0x80 + r % 64)]
  else
    [UInt8.ofNat (0xF0 + r / 262144), UInt8.ofNat (0x80 + r / 4096 % 64),
      UInt8.ofNat (0x80 + r / 64 % 64), UInt8.ofNat (0x80 + r % 64)]

/-- `first` and `acceptRanges` of `unicode/utf8` for a byte from `0x80` on: the size of the rune
it starts and the range of the byte after it, or `none` for a byte that starts no rune. -/
def runeStart (c : UInt8) : Option (Nat × Nat × Nat) :=
  let n := c.toNat
  if 0xC2 ≤ n ∧ n ≤ 0xDF then some (2, 0x80, 0xBF)
  else if n = 0xE0 then some (3, 0xA0, 0xBF)
  else if n = 0xED then some (3, 0x80, 0x9F)
  else if 0xE1 ≤ n ∧ n ≤ 0xEF then some (3, 0x80, 0xBF)
  else if n = 0xF0 then some (4, 0x90, 0xBF)
  else if n = 0xF4 then some (4, 0x80, 0x8F)
  else if 0xF1 ≤ n ∧ n ≤ 0xF3 then some (4, 0x80, 0xBF)
  else none

def isContinuation (b : UInt8) : Bool :=
  0x80 ≤ b.toNat && b.toNat ≤ 0xBF

/-- The size `utf8.DecodeRune` gives the rune at `c :: rest` for `c` from `0x80` on, or `0` for
its `RuneError` of size one. -/
def runeSize (c : UInt8) (rest : Bytes) : Nat :=
  match rest, runeStart c with
  | b1 :: more, some (sz, lo, hi) =>
      if lo ≤ b1.toNat ∧ b1.toNat ≤ hi ∧ sz - 2 ≤ more.length ∧
          (more.take (sz - 2)).all isContinuation then sz
      else 0
  | _, _ => 0

def hexContext : String := "in \\u hexadecimal character escape"

def readHex : Nat -> Nat -> Bytes -> Except ScanError Nat
  | 0, acc, _ => .ok acc
  | _ + 1, _, [] => .error .eof
  | k + 1, acc, c :: rest =>
      match hexValue c with
      | some v => readHex k (acc * 16 + v) rest
      | none => .error (.invalid c hexContext)

/-- `utf16.DecodeRune` on a high and a low surrogate. -/
def decodeSurrogates (r1 r2 : Nat) : Option Nat :=
  if 0xD800 ≤ r1 ∧ r1 < 0xDC00 ∧ 0xDC00 ≤ r2 ∧ r2 < 0xE000 then
    some ((r1 - 0xD800) * 1024 + (r2 - 0xDC00) + 0x10000)
  else none

def Except.prepend {ε : Type} (bs : Bytes) :
    Except ε (Bytes × Bytes) -> Except ε (Bytes × Bytes)
  | .ok (s, r) => .ok (bs ++ s, r)
  | .error e => .error e

def pendingBytes : Option Nat -> Bytes
  | none => []
  | some _ => encodeRune 0xFFFD

/-- The loop of `unquoteBytes` over a string's contents. Escapes are undone; `high` is a high
surrogate just read from a `\u` escape, which pairs with a low surrogate escape right after it
and otherwise stands alone as U+FFFD. A byte from `0x80` on goes through `utf8.DecodeRune`: a rune
it reads is copied, its `copy` continuation bytes one at a time, and a byte that starts none
becomes U+FFFD. -/
def scanRunes : Nat -> Option Nat -> Bytes -> Except ScanError (Bytes × Bytes)
  | _, _, [] => .error .eof
  | copy + 1, _, b :: rest => Except.prepend [b] (scanRunes copy none rest)
  | 0, high, c :: rest =>
      if c = 34 then .ok (pendingBytes high, rest)
      else if c = 92 then
        match rest with
        | [] => .error .eof
        | e :: rest' =>
            if e = 117 then
              match rest' with
              | h1 :: h2 :: h3 :: h4 :: more =>
                  match readHex 4 0 [h1, h2, h3, h4] with
                  | .error err => .error err
                  | .ok r =>
                      match high.bind (decodeSurrogates · r) with
                      | some rr => Except.prepend (encodeRune rr) (scanRunes 0 none more)
                      | none =>
                          if 0xD800 ≤ r ∧ r < 0xDC00 then
                            Except.prepend (pendingBytes high) (scanRunes 0 (some r) more)
                          else Except.prepend (pendingBytes high ++ encodeRune r) (scanRunes 0 none more)
              | short =>
                  match readHex 4 0 short with
                  | .error err => .error err
                  | .ok _ => .error .eof
            else
              match simpleEscape e with
              | some b => Except.prepend (pendingBytes high ++ [b]) (scanRunes 0 none rest')
              | none => .error (.invalid e "in string escape code")
      else if c < 32 then .error (.invalid c "in string literal")
      else if c < 128 then Except.prepend (pendingBytes high ++ [c]) (scanRunes 0 none rest)
      else
        match runeSize c rest with
        | 0 => Except.prepend (pendingBytes high ++ encodeRune 0xFFFD) (scanRunes 0 none rest)
        | n + 1 => Except.prepend (pendingBytes high ++ [c]) (scanRunes n none rest)

/-- The contents of a string after its opening quote, up to and without its closing quote, as
`unquoteBytes` makes them, and what follows the closing quote. -/
def scanString (high : Option Nat) (s : Bytes) : Except ScanError (Bytes × Bytes) :=
  scanRunes 0 high s

def exponentDigits (lead : Bytes) : Bytes -> Except ScanError (Bytes × Bytes)
  | [] => .error .eof
  | d :: rest =>
      if isDigit d then .ok (lead ++ d :: rest.takeWhile isDigit, rest.dropWhile isDigit)
      else .error (.invalid d "in exponent of numeric literal")

def scanExponent : Bytes -> Except ScanError (Bytes × Bytes)
  | [] => .ok ([], [])
  | c :: rest =>
      if c = 101 ∨ c = 69 then
        match rest with
        | [] => .error .eof
        | s :: rest' =>
            if s = 43 ∨ s = 45 then exponentDigits [c, s] rest' else exponentDigits [c] (s :: rest')
      else .ok ([], c :: rest)

def scanFraction : Bytes -> Except ScanError (Bytes × Bytes)
  | [] => .ok ([], [])
  | c :: rest =>
      if c = 46 then
        match rest with
        | [] => .error .eof
        | d :: rest' =>
            if isDigit d then
              Except.prepend (c :: d :: rest'.takeWhile isDigit) (scanExponent (rest'.dropWhile isDigit))
            else .error (.invalid d "after decimal point in numeric literal")
      else scanExponent (c :: rest)

def scanInteger (d : UInt8) (rest : Bytes) : Except ScanError (Bytes × Bytes) :=
  if d = 48 then Except.prepend [d] (scanFraction rest)
  else Except.prepend (d :: rest.takeWhile isDigit) (scanFraction (rest.dropWhile isDigit))

def scanNumber (c : UInt8) (rest : Bytes) : Except ScanError (Bytes × Bytes) :=
  if c = 45 then
    match rest with
    | [] => .error .eof
    | d :: rest' =>
        if isDigit d then Except.prepend [c] (scanInteger d rest')
        else .error (.invalid d "in numeric literal")
  else scanInteger c rest

def expectLetters (word : String) : Bytes -> Bytes -> Except ScanError Bytes
  | [], rest => .ok rest
  | _ :: _, [] => .error .eof
  | w :: ws, c :: rest =>
      if c = w then expectLetters word ws rest
      else .error (.invalid c ("in literal " ++ word ++ " (expecting '" ++
        String.singleton (Char.ofNat w.toNat) ++ "')"))

def skipSpace : Bytes -> Bytes
  | [] => []
  | c :: rest => if isSpace c then skipSpace rest else c :: rest

def withValue (f : Bytes -> Value) : Except ScanError (Bytes × Bytes) -> Except ScanError (Value × Bytes)
  | .ok (b, r) => .ok (f b, r)
  | .error e => .error e

def parseLiteral (word : String) (v : Value) (rest : Bytes) : Except ScanError (Value × Bytes) :=
  match expectLetters word ((ascii word).drop 1) rest with
  | .ok r => .ok (v, r)
  | .error e => .error e

def parseScalar (c : UInt8) (rest : Bytes) : Except ScanError (Value × Bytes) :=
  if c = 34 then withValue .string (scanString none rest)
  else if c = 45 ∨ isDigit c then withValue .number (scanNumber c rest)
  else if c = 116 then parseLiteral "true" (.bool true) rest
  else if c = 102 then parseLiteral "false" (.bool false) rest
  else if c = 110 then parseLiteral "null" .null rest
  else .error (.invalid c "looking for beginning of value")

mutual

/-- One value, after optional whitespace, at nesting depth `depth`. -/
def parseValue : Nat -> Nat -> Bytes -> Except ScanError (Value × Bytes)
  | 0, _, _ => .error .outOfFuel
  | fuel + 1, depth, s =>
      match skipSpace s with
      | [] => .error .eof
      | c :: rest =>
          if c = 123 then
            if maxNestingDepth < depth + 1 then .error (.invalid c "exceeded max depth")
            else
              match skipSpace rest with
              | [] => .error .eof
              | d :: rest' =>
                  if d = 125 then .ok (.object [], rest')
                  else parseMembers fuel (depth + 1) [] (d :: rest')
          else if c = 91 then
            if maxNestingDepth < depth + 1 then .error (.invalid c "exceeded max depth")
            else
              match skipSpace rest with
              | [] => .error .eof
              | d :: rest' =>
                  if d = 93 then .ok (.array [], rest')
                  else parseElements fuel (depth + 1) [] (d :: rest')
          else parseScalar c rest

/-- The elements of an array from its first element on; `acc` holds those already read. -/
def parseElements : Nat -> Nat -> List Value -> Bytes -> Except ScanError (Value × Bytes)
  | 0, _, _, _ => .error .outOfFuel
  | fuel + 1, depth, acc, s =>
      match parseValue fuel depth s with
      | .error e => .error e
      | .ok (v, r) =>
          match skipSpace r with
          | [] => .error .eof
          | c :: r' =>
              if c = 44 then parseElements fuel depth (acc ++ [v]) r'
              else if c = 93 then .ok (.array (acc ++ [v]), r')
              else .error (.invalid c "after array element")

/-- The members of an object from its first key on; `acc` holds those already read. -/
def parseMembers : Nat -> Nat -> List (Bytes × Value) -> Bytes -> Except ScanError (Value × Bytes)
  | 0, _, _, _ => .error .outOfFuel
  | fuel + 1, depth, acc, s =>
      match skipSpace s with
      | [] => .error .eof
      | c :: rest =>
          if c ≠ 34 then .error (.invalid c "looking for beginning of object key string")
          else
            match scanString none rest with
            | .error e => .error e
            | .ok (key, r) =>
                match skipSpace r with
                | [] => .error .eof
                | c' :: r' =>
                    if c' ≠ 58 then .error (.invalid c' "after object key")
                    else
                      match parseValue fuel depth r' with
                      | .error e => .error e
                      | .ok (v, r'') =>
                          match skipSpace r'' with
                          | [] => .error .eof
                          | c'' :: r''' =>
                              if c'' = 44 then parseMembers fuel depth (acc ++ [(key, v)]) r'''
                              else if c'' = 125 then .ok (.object (acc ++ [(key, v)]), r''')
                              else .error (.invalid c'' "after object key:value pair")

end

inductive ReadError
  | eof
  | unexpectedEOF
  | invalid (c : UInt8) (context : String)
  | outOfFuel
  deriving DecidableEq, Repr

/-- The first JSON value of a stream (`readValue`): `io.EOF` when the stream holds only
whitespace, `io.ErrUnexpectedEOF` when it ends inside the value. -/
def readValue (s : Bytes) : Except ReadError Value :=
  match skipSpace s with
  | [] => .error .eof
  | _ :: _ =>
      match parseValue (2 * s.length + 1) 0 s with
      | .ok (v, _) => .ok v
      | .error .eof => .error .unexpectedEOF
      | .error (.invalid c ctx) => .error (.invalid c ctx)
      | .error .outOfFuel => .error .outOfFuel

/-!
## One step of the reader

What the reader does on one value, one array element and one object member, given how the
pieces it calls went; and, conversely, how the pieces went when it succeeded.
-/

section Step

variable {n depth : Nat} {s r : Bytes} {v : Value}

theorem parseValue_object {rest rest' : Bytes} {d : UInt8} (hs : skipSpace s = 123 :: rest)
    (hd : depth + 1 ≤ maxNestingDepth) (hs' : skipSpace rest = d :: rest') :
    parseValue (n + 1) depth s =
      if d = 125 then .ok (.object [], rest') else parseMembers n (depth + 1) [] (d :: rest') := by
  simp [parseValue, hs, hs', Nat.not_lt.mpr hd]

theorem parseValue_array {rest rest' : Bytes} {d : UInt8} (hs : skipSpace s = 91 :: rest)
    (hd : depth + 1 ≤ maxNestingDepth) (hs' : skipSpace rest = d :: rest') :
    parseValue (n + 1) depth s =
      if d = 93 then .ok (.array [], rest') else parseElements n (depth + 1) [] (d :: rest') := by
  simp [parseValue, hs, hs', Nat.not_lt.mpr hd]

theorem parseValue_scalar {c : UInt8} {rest : Bytes} (hs : skipSpace s = c :: rest)
    (h1 : c ≠ 123) (h2 : c ≠ 91) : parseValue (n + 1) depth s = parseScalar c rest := by
  simp [parseValue, hs, h1, h2]

theorem parseElements_succ {acc : List Value} {v' : Value} {r' r'' : Bytes} {c : UInt8}
    (hv : parseValue n depth s = .ok (v', r')) (hs : skipSpace r' = c :: r'') :
    parseElements (n + 1) depth acc s =
      if c = 44 then parseElements n depth (acc ++ [v']) r''
      else if c = 93 then .ok (.array (acc ++ [v']), r'')
      else .error (.invalid c "after array element") := by
  simp [parseElements, hv, hs]

theorem parseMembers_succ {acc : List (Bytes × Value)} {rest key r1 r2 r3 : Bytes} {v' : Value}
    {c : UInt8} (hs : skipSpace s = 34 :: rest) (hk : scanString none rest = .ok (key, r1))
    (h1 : skipSpace r1 = 58 :: r2) (hv : parseValue n depth r2 = .ok (v', r3))
    (h2 : skipSpace r3 = c :: r) :
    parseMembers (n + 1) depth acc s =
      if c = 44 then parseMembers n depth (acc ++ [(key, v')]) r
      else if c = 125 then .ok (.object (acc ++ [(key, v')]), r)
      else .error (.invalid c "after object key:value pair") := by
  simp [parseMembers, hs, hk, h1, hv, h2]

theorem parseValue_eq_ok (h : parseValue (n + 1) depth s = .ok (v, r)) :
    ∃ c rest, skipSpace s = c :: rest ∧
      ((c = 123 ∨ c = 91) ∧ depth + 1 ≤ maxNestingDepth ∧ (∃ d rest', skipSpace rest = d :: rest' ∧
        (c = 123 ∧ (d = 125 ∧ v = .object [] ∧ r = rest' ∨
            d ≠ 125 ∧ parseMembers n (depth + 1) [] (d :: rest') = .ok (v, r)) ∨
          c = 91 ∧ (d = 93 ∧ v = .array [] ∧ r = rest' ∨
            d ≠ 93 ∧ parseElements n (depth + 1) [] (d :: rest') = .ok (v, r)))) ∨
        c ≠ 123 ∧ c ≠ 91 ∧ parseScalar c rest = .ok (v, r)) := by
  simp only [parseValue] at h
  split at h
  · cases h
  rename_i c rest hs
  refine ⟨c, rest, hs, ?_⟩
  split_ifs at h with hobj hd harr hd'
  · -- an object
    split at h
    · cases h
    rename_i d rest' hs'
    refine .inl ⟨.inl hobj, by omega, d, rest', hs', .inl ⟨hobj, ?_⟩⟩
    split_ifs at h with hclose
    · cases h
      exact .inl ⟨hclose, rfl, rfl⟩
    · exact .inr ⟨hclose, h⟩
  · -- an array
    split at h
    · cases h
    rename_i d rest' hs'
    refine .inl ⟨.inr harr, by omega, d, rest', hs', .inr ⟨harr, ?_⟩⟩
    split_ifs at h with hclose
    · cases h
      exact .inl ⟨hclose, rfl, rfl⟩
    · exact .inr ⟨hclose, h⟩
  · exact .inr ⟨hobj, harr, h⟩

theorem parseElements_eq_ok {acc : List Value} (h : parseElements (n + 1) depth acc s = .ok (v, r)) :
    ∃ v' r' c r'', parseValue n depth s = .ok (v', r') ∧ skipSpace r' = c :: r'' ∧
      (c = 44 ∧ parseElements n depth (acc ++ [v']) r'' = .ok (v, r) ∨
        c = 93 ∧ v = .array (acc ++ [v']) ∧ r = r'') := by
  simp only [parseElements] at h
  split at h
  · cases h
  rename_i v' r' hv
  split at h
  · cases h
  rename_i c r'' hs
  refine ⟨v', r', c, r'', hv, hs, ?_⟩
  split_ifs at h with hcomma hclose
  · exact .inl ⟨hcomma, h⟩
  · cases h
    exact .inr ⟨hclose, rfl, rfl⟩

theorem parseMembers_eq_ok {acc : List (Bytes × Value)}
    (h : parseMembers (n + 1) depth acc s = .ok (v, r)) :
    ∃ rest key r1 r2 v' r3 c r4, skipSpace s = 34 :: rest ∧ scanString none rest = .ok (key, r1) ∧
      skipSpace r1 = 58 :: r2 ∧ parseValue n depth r2 = .ok (v', r3) ∧ skipSpace r3 = c :: r4 ∧
      (c = 44 ∧ parseMembers n depth (acc ++ [(key, v')]) r4 = .ok (v, r) ∨
        c = 125 ∧ v = .object (acc ++ [(key, v')]) ∧ r = r4) := by
  simp only [parseMembers, ne_eq, ite_not] at h
  split at h
  · cases h
  rename_i c0 rest hs
  split_ifs at h with hquote
  split at h
  · cases h
  rename_i key r1 hk
  split at h
  · cases h
  rename_i c1 r2 hs1
  split_ifs at h with hcolon
  split at h
  · cases h
  rename_i v' r3 hv
  split at h
  · cases h
  rename_i c r4 hs3
  subst hquote hcolon
  refine ⟨rest, key, r1, r2, v', r3, c, r4, hs, hk, hs1, hv, hs3, ?_⟩
  split_ifs at h with hcomma hclose
  · exact .inl ⟨hcomma, h⟩
  · cases h
    exact .inr ⟨hclose, rfl, rfl⟩

theorem readValue_eq_eof_iff (s : Bytes) : readValue s = .error .eof ↔ skipSpace s = [] := by
  unfold readValue
  split
  · simp [*]
  · rename_i h
    simp only [h, reduceCtorEq, iff_false, not_false_eq_true, iff_false]
    split <;> simp

end Step

end Json
end GoTuf
