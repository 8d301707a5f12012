import GoTuf.Encoding.Json.Depth
import GoTuf.Encoding.Json.Object

/-!
# Well-formed text

The reader against the grammar, both ways. A compact writer for values, `Value.encode`, says
what well-formed text is, and the reader reads back every value it writes whose numbers are
literals of the JSON grammar, whose strings are valid UTF-8 and whose arrays and objects nest
within `maxNestingDepth`: it is not stricter than the grammar. Nor is it looser: every number in
a value it reads is such a literal, and every string valid UTF-8, since `unquoteBytes` turns each
byte that starts no rune into U+FFFD. Each direction has one lemma per stage of the number
scanner, and the reading-back one a lemma per character of a string; both read values, array
elements and object members together by induction on the reader's fuel, as the other properties
of the reader do.
-/

namespace GoTuf
namespace Json

/-!
## String literals
-/

def hexDigit (n : Nat) : UInt8 :=
  UInt8.ofNat (if n < 10 then 48 + n else 87 + n)

/-- One byte of a string's contents as the writer puts it between the quotes: a quote or a
backslash behind a backslash, a control byte as a `\u00XX` escape, any other byte as it is. -/
def escapeByte (c : UInt8) : Bytes :=
  if c = 34 then [92, 34]
  else if c = 92 then [92, 92]
  else if c < 32 then [92, 117, 48, 48, hexDigit (c.toNat / 16), hexDigit (c.toNat % 16)]
  else [c]

/-- A string literal: the escaped contents between quotes. -/
def quoteBytes (s : Bytes) : Bytes :=
  34 :: (s.flatMap escapeByte ++ [34])

theorem hexValue_hexDigit {n : Nat} (h : n < 16) : hexValue (hexDigit n) = some n := by
  have hv : (hexDigit n).toNat = if n < 10 then 48 + n else 87 + n :=
    UInt8.toNat_ofNat_of_lt (by split <;> (show _ < 256; omega))
  by_cases h10 : n < 10
  · simp only [hexValue, hv, if_pos h10]
    rw [if_pos (by omega), Nat.add_sub_cancel_left]
  · simp only [hexValue, hv, if_neg h10]
    rw [if_neg (by omega), if_pos (by omega), Nat.add_sub_cancel_left]

theorem readHex_control (c : UInt8) (h : c < 32) :
    readHex 4 0 [48, 48, hexDigit (c.toNat / 16), hexDigit (c.toNat % 16)] = .ok c.toNat := by
  have hc : c.toNat < 32 := h
  simp only [readHex, show hexValue 48 = some 0 from rfl,
    hexValue_hexDigit (show c.toNat / 16 < 16 by omega),
    hexValue_hexDigit (show c.toNat % 16 < 16 by omega)]
  congr 1
  omega

theorem scanString_escapeByte {c : UInt8} (h128 : c < 128) (rest : Bytes) :
    scanString none (escapeByte c ++ rest) = Except.prepend [c] (scanString none rest) := by
  unfold escapeByte scanString
  by_cases h34 : c = 34
  · subst h34
    rw [if_pos rfl, List.cons_append, scanRunes.eq_def]
    simp [simpleEscape, pendingBytes]
  by_cases h92 : c = 92
  · subst h92
    rw [if_neg (by decide), if_pos rfl, List.cons_append, scanRunes.eq_def]
    simp [simpleEscape, pendingBytes]
  rw [if_neg h34, if_neg h92]
  by_cases hlt : c < 32
  · have hc : c.toNat < 32 := hlt
    have hbyte : UInt8.ofNat c.toNat = c :=
      UInt8.toNat.inj (UInt8.toNat_ofNat_of_lt c.toNat_lt_size)
    rw [if_pos hlt]
    simp only [List.cons_append, List.nil_append]
    rw [scanRunes.eq_def]
    simp [hbyte, readHex_control c hlt, Option.bind, show ¬ (0xD800 ≤ c.toNat) by omega,
      pendingBytes, encodeRune, show c.toNat < 0x80 by omega]
  · rw [if_neg hlt, List.singleton_append, scanRunes.eq_def]
    simp [h34, h92, hlt, h128, pendingBytes]

theorem escapeByte_of_high {b : UInt8} (h : 0x80 ≤ b.toNat) : escapeByte b = [b] := by
  have hlt : ¬ b < 32 := fun hb => absurd (show b.toNat < 32 from hb) (by omega)
  rw [escapeByte, if_neg (by rintro rfl; exact absurd h (by decide)),
    if_neg (by rintro rfl; exact absurd h (by decide)), if_neg hlt]

theorem flatMap_escapeByte_of_high {l : Bytes} (h : ∀ b ∈ l, 0x80 ≤ b.toNat) :
    l.flatMap escapeByte = l := by
  induction l with
  | nil => rfl
  | cons b l ih =>
      rw [List.flatMap_cons, escapeByte_of_high (h b (List.mem_cons_self _ _)),
        ih fun x hx => h x (List.mem_cons_of_mem _ hx)]
      rfl

theorem scanRunes_copy (l u : Bytes) :
    scanRunes l.length none (l ++ u) = Except.prepend l (scanRunes 0 none u) := by
  induction l with
  | nil => simp
  | cons b l ih =>
      rw [List.length_cons, List.cons_append, scanRunes, ih, Except.prepend_prepend]
      rfl

theorem scanString_utf8Char {c : Bytes} (hc : Utf8Char c) (rest : Bytes) :
    scanString none (c.flatMap escapeByte ++ rest) = Except.prepend c (scanString none rest) := by
  rcases hc.ascii_or_high with ⟨a, rfl, ha⟩ | ⟨a, cs, rfl, hhigh⟩
  · simpa using scanString_escapeByte (show a < 128 from ha) rest
  have ha := hhigh a (List.mem_cons_self _ _)
  have h34 : a ≠ 34 := by rintro rfl; exact absurd ha (by decide)
  have h92 : a ≠ 92 := by rintro rfl; exact absurd ha (by decide)
  have h32 : ¬ a < 32 := fun h => absurd (show a.toNat < 32 from h) (by omega)
  have h128 : ¬ a < 128 := fun h => absurd (show a.toNat < 128 from h) (by omega)
  rw [flatMap_escapeByte_of_high hhigh, scanString, List.cons_append, scanRunes.eq_def]
  simp only [h34, h92, h32, h128, if_false, runeSize_utf8Char hc ha, pendingBytes,
    List.nil_append, scanRunes_copy, Except.prepend_prepend]
  rfl

theorem scanString_quoteBytes {s : Bytes} (hs : ValidUtf8 s) (t : Bytes) :
    scanString none (s.flatMap escapeByte ++ 34 :: t) = .ok (s, t) := by
  induction hs with
  | nil =>
      rw [List.flatMap_nil, List.nil_append, scanString, scanRunes.eq_def]
      rfl
  | cons hc _ ih =>
      rw [List.flatMap_append, List.append_assoc, scanString_utf8Char hc, ih]
      rfl

/-!
## Number literals
-/

/-- The integer part of a number: `0`, or a digit from `1` to `9` followed by digits. -/
def IntegerPart : Bytes -> Prop
  | [] => False
  | d :: ds => d = 48 ∧ ds = [] ∨ (49 ≤ d.toNat ∧ d.toNat ≤ 57) ∧ ds.all isDigit

/-- The fraction of a number: nothing, or a dot and one digit or more. -/
def FractionPart (frac : Bytes) : Prop :=
  frac = [] ∨ ∃ d ds, frac = 46 :: d :: ds ∧ (d :: ds).all isDigit

/-- The exponent of a number: nothing, or `e` or `E`, an optional sign and one digit or more. -/
def ExponentPart (exp : Bytes) : Prop :=
  exp = [] ∨ ∃ e sign d ds, exp = e :: (sign ++ d :: ds) ∧ (e = 101 ∨ e = 69) ∧
    (sign = [] ∨ sign = [43] ∨ sign = [45]) ∧ (d :: ds).all isDigit

/-- A number literal of the JSON grammar: an optional minus, the integer part, the fraction and
the exponent. -/
def NumberLiteral (lit : Bytes) : Prop :=
  ∃ sign int frac exp, lit = sign ++ int ++ frac ++ exp ∧ (sign = [] ∨ sign = [45]) ∧
    IntegerPart int ∧ FractionPart frac ∧ ExponentPart exp

def endsNumber : Bytes -> Bool
  | [] => true
  | d :: _ => !isDigit d && d != 46 && d != 101 && d != 69

theorem digits_append {ds rest : Bytes} (hds : ds.all isDigit = true)
    (hr : rest.takeWhile isDigit = []) :
    (ds ++ rest).takeWhile isDigit = ds ∧ (ds ++ rest).dropWhile isDigit = rest := by
  induction ds with
  | nil =>
      refine ⟨hr, ?_⟩
      rw [List.nil_append, ← List.nil_append (rest.dropWhile isDigit), ← hr,
        List.takeWhile_append_dropWhile]
  | cons d ds ih =>
      simp only [List.all_cons, Bool.and_eq_true] at hds
      obtain ⟨h1, h2⟩ := ih hds.2
      simp [List.takeWhile_cons, List.dropWhile_cons, hds.1, h1, h2]

theorem takeWhile_isDigit_of_endsNumber {t : Bytes} (ht : endsNumber t = true) :
    t.takeWhile isDigit = [] := by
  cases t with
  | nil => rfl
  | cons d t =>
      simp only [endsNumber, Bool.and_eq_true, Bool.not_eq_true'] at ht
      simp [List.takeWhile_cons, ht.1.1.1]

theorem takeWhile_isDigit_exponent {exp t : Bytes} (hexp : ExponentPart exp)
    (ht : endsNumber t = true) : (exp ++ t).takeWhile isDigit = [] := by
  rcases hexp with rfl | ⟨e, sign, d, ds, rfl, he, -, -⟩
  · exact takeWhile_isDigit_of_endsNumber ht
  · rcases he with rfl | rfl <;> rfl

theorem takeWhile_isDigit_fraction {frac exp t : Bytes} (hfrac : FractionPart frac)
    (hexp : ExponentPart exp) (ht : endsNumber t = true) :
    (frac ++ (exp ++ t)).takeWhile isDigit = [] := by
  rcases hfrac with rfl | ⟨d, ds, rfl, -⟩
  · rw [List.nil_append]
    exact takeWhile_isDigit_exponent hexp ht
  · rfl

theorem scanExponent_literal {exp t : Bytes} (hexp : ExponentPart exp) (ht : endsNumber t = true) :
    scanExponent (exp ++ t) = .ok (exp, t) := by
  rcases hexp with rfl | ⟨e, sign, d, ds, rfl, he, hsign, hds⟩
  · cases t with
    | nil => rfl
    | cons c t =>
        simp only [endsNumber, Bool.and_eq_true, Bool.not_eq_true', bne_iff_ne, ne_eq] at ht
        simp [scanExponent, ht.1.2, ht.2]
  · simp only [List.all_cons, Bool.and_eq_true] at hds
    have hsd : ¬(d = 43 ∨ d = 45) := by
      rintro (rfl | rfl) <;> exact absurd hds.1 (by decide)
    obtain ⟨h1, h2⟩ := digits_append hds.2 (takeWhile_isDigit_of_endsNumber ht)
    rcases hsign with rfl | rfl | rfl <;>
      simp [scanExponent, exponentDigits, he, hsd, hds.1, h1, h2]

theorem scanFraction_eq_scanExponent {s : Bytes} (h : ∀ r, s ≠ 46 :: r) :
    scanFraction s = scanExponent s := by
  cases s with
  | nil => rfl
  | cons c r =>
      have hc : c ≠ 46 := fun hc => h r (by rw [hc])
      simp [scanFraction, hc]

theorem scanFraction_literal {frac exp t : Bytes} (hfrac : FractionPart frac)
    (hexp : ExponentPart exp) (ht : endsNumber t = true) :
    scanFraction (frac ++ (exp ++ t)) = .ok (frac ++ exp, t) := by
  rcases hfrac with rfl | ⟨d, ds, rfl, hds⟩
  · simp only [List.nil_append]
    rw [scanFraction_eq_scanExponent, scanExponent_literal hexp ht]
    rintro r hr
    rcases hexp with rfl | ⟨e, sign, d, ds, rfl, he, -, -⟩
    · cases hr
      simp [endsNumber] at ht
    · cases hr
      rcases he with h | h <;> cases h
  · simp only [List.all_cons, Bool.and_eq_true] at hds
    obtain ⟨h1, h2⟩ := digits_append hds.2 (takeWhile_isDigit_exponent hexp ht)
    simp [scanFraction, hds.1, h1, h2, scanExponent_literal hexp ht]

theorem scanInteger_literal {d : UInt8} {ds frac exp t : Bytes} (hint : IntegerPart (d :: ds))
    (hfrac : FractionPart frac) (hexp : ExponentPart exp) (ht : endsNumber t = true) :
    scanInteger d (ds ++ (frac ++ (exp ++ t))) = .ok (d :: (ds ++ (frac ++ exp)), t) := by
  rcases hint with ⟨rfl, rfl⟩ | ⟨hd, hds⟩
  · simp [scanInteger, scanFraction_literal hfrac hexp ht]
  · have hd0 : d ≠ 48 := fun h => by subst h; exact absurd hd (by decide)
    obtain ⟨h1, h2⟩ := digits_append hds (takeWhile_isDigit_fraction hfrac hexp ht)
    simp [scanInteger, hd0, h1, h2, scanFraction_literal hfrac hexp ht]

theorem scanNumber_literal {lit t : Bytes} (hlit : NumberLiteral lit) (ht : endsNumber t = true) :
    ∃ c rest, lit = c :: rest ∧ (c = 45 ∨ isDigit c = true) ∧
      scanNumber c (rest ++ t) = .ok (lit, t) := by
  obtain ⟨sign, int, frac, exp, rfl, hsign, hint, hfrac, hexp⟩ := hlit
  obtain ⟨d, ds, rfl⟩ : ∃ d ds, int = d :: ds := by
    cases int with
    | nil => exact absurd hint id
    | cons d ds => exact ⟨d, ds, rfl⟩
  have hd : isDigit d = true := by
    rcases hint with ⟨rfl, -⟩ | ⟨hd, -⟩
    · rfl
    · simp only [isDigit, Bool.and_eq_true, decide_eq_true_eq]
      omega
  have hint' := scanInteger_literal hint hfrac hexp ht
  rcases hsign with rfl | rfl
  · refine ⟨d, ds ++ frac ++ exp, by simp, .inr hd, ?_⟩
    have hd45 : d ≠ 45 := fun h => by subst h; exact absurd hd (by decide)
    simp only [scanNumber, hd45, if_false]
    simpa using hint'
  · refine ⟨45, d :: ds ++ frac ++ exp, by simp, .inl rfl, ?_⟩
    simp only [List.append_assoc] at hint'
    simp [scanNumber, hd, hint']

/-!
### What the scanner accepts

The converse, one lemma per stage again: whatever the scanner reads is a literal of the grammar.
-/

theorem exponentDigits_eq_ok {lead s e r : Bytes} (h : exponentDigits lead s = .ok (e, r)) :
    ∃ d ds, e = lead ++ d :: ds ∧ (d :: ds).all isDigit := by
  cases s with
  | nil => cases h
  | cons d rest =>
      rw [exponentDigits] at h
      by_cases hd : isDigit d = true
      · rw [if_pos hd] at h
        cases h
        exact ⟨d, _, rfl, by simp [hd]⟩
      · rw [if_neg hd] at h
        cases h

theorem scanExponent_eq_ok {s e r : Bytes} (h : scanExponent s = .ok (e, r)) :
    ExponentPart e := by
  cases s with
  | nil =>
      cases h
      exact .inl rfl
  | cons c rest =>
      simp only [scanExponent] at h
      by_cases hc : c = 101 ∨ c = 69
      · rw [if_pos hc] at h
        cases rest with
        | nil => cases h
        | cons s' rest' =>
            dsimp only at h
            by_cases hs : s' = 43 ∨ s' = 45
            · rw [if_pos hs] at h
              obtain ⟨d, ds, rfl, hds⟩ := exponentDigits_eq_ok h
              exact .inr ⟨c, [s'], d, ds, rfl, hc, .inr (hs.imp (by rintro rfl; rfl)
                (by rintro rfl; rfl)), hds⟩
            · rw [if_neg hs] at h
              obtain ⟨d, ds, rfl, hds⟩ := exponentDigits_eq_ok h
              exact .inr ⟨c, [], d, ds, rfl, hc, .inl rfl, hds⟩
      · rw [if_neg hc] at h
        cases h
        exact .inl rfl

theorem scanFraction_eq_ok {s fe r : Bytes} (h : scanFraction s = .ok (fe, r)) :
    ∃ frac exp, fe = frac ++ exp ∧ FractionPart frac ∧ ExponentPart exp := by
  cases s with
  | nil =>
      cases h
      exact ⟨[], [], rfl, .inl rfl, .inl rfl⟩
  | cons c rest =>
      simp only [scanFraction] at h
      by_cases hc : c = 46
      · rw [if_pos hc] at h
        cases rest with
        | nil => cases h
        | cons d rest' =>
            dsimp only at h
            by_cases hd : isDigit d = true
            · rw [if_pos hd] at h
              obtain ⟨e, he, rfl⟩ := Except.exists_of_prepend_eq_ok h
              refine ⟨c :: d :: rest'.takeWhile isDigit, e, rfl, .inr ⟨d, _, by rw [hc], ?_⟩,
                scanExponent_eq_ok he⟩
              simp [hd]
            · rw [if_neg hd] at h
              cases h
      · rw [if_neg hc] at h
        exact ⟨[], fe, rfl, .inl rfl, scanExponent_eq_ok h⟩

theorem scanInteger_eq_ok {d : UInt8} {rest lit r : Bytes} (hd : isDigit d = true)
    (h : scanInteger d rest = .ok (lit, r)) :
    ∃ int frac exp, lit = int ++ (frac ++ exp) ∧ IntegerPart int ∧ FractionPart frac ∧
      ExponentPart exp := by
  rw [scanInteger] at h
  by_cases h48 : d = 48
  · rw [if_pos h48] at h
    obtain ⟨fe, hfe, rfl⟩ := Except.exists_of_prepend_eq_ok h
    obtain ⟨frac, exp, rfl, hfrac, hexp⟩ := scanFraction_eq_ok hfe
    exact ⟨[d], frac, exp, rfl, .inl ⟨h48, rfl⟩, hfrac, hexp⟩
  · rw [if_neg h48] at h
    obtain ⟨fe, hfe, rfl⟩ := Except.exists_of_prepend_eq_ok h
    obtain ⟨frac, exp, rfl, hfrac, hexp⟩ := scanFraction_eq_ok hfe
    refine ⟨d :: rest.takeWhile isDigit, frac, exp, rfl, .inr ⟨?_, List.all_takeWhile⟩, hfrac,
      hexp⟩
    have h48' : d.toNat ≠ 48 := fun h => h48 (UInt8.toNat.inj h)
    simp only [isDigit, Bool.and_eq_true, decide_eq_true_eq] at hd
    omega

theorem scanNumber_eq_ok {c : UInt8} {rest lit r : Bytes} (hc : c = 45 ∨ isDigit c = true)
    (h : scanNumber c rest = .ok (lit, r)) : NumberLiteral lit := by
  unfold scanNumber at h
  by_cases h45 : c = 45
  · rw [if_pos h45] at h
    cases rest with
    | nil => cases h
    | cons d rest' =>
        dsimp only at h
        by_cases hd : isDigit d = true
        · rw [if_pos hd] at h
          obtain ⟨lit', hlit', rfl⟩ := Except.exists_of_prepend_eq_ok h
          obtain ⟨int, frac, exp, rfl, hint, hfrac, hexp⟩ := scanInteger_eq_ok hd hlit'
          exact ⟨[c], int, frac, exp, by simp, .inr (by rw [h45]), hint, hfrac, hexp⟩
        · rw [if_neg hd] at h
          cases h
  · rw [if_neg h45] at h
    obtain ⟨int, frac, exp, rfl, hint, hfrac, hexp⟩ :=
      scanInteger_eq_ok (hc.resolve_left h45) h
    exact ⟨[], int, frac, exp, by simp, .inl rfl, hint, hfrac, hexp⟩

/-!
## The writer
-/

mutual

/-- The compact text of a value: no whitespace between tokens, strings by `quoteBytes`, numbers
as their literal. -/
def Value.encode : Value -> Bytes
  | .null => ascii "null"
  | .bool true => ascii "true"
  | .bool false => ascii "false"
  | .number lit => lit
  | .string s => quoteBytes s
  | .array es => 91 :: encodeElements es
  | .object ms => 123 :: encodeMembers ms

/-- The elements of an array, separated by commas, and the closing bracket. -/
def encodeElements : List Value -> Bytes
  | [] => [93]
  | e :: es => e.encode ++ (if es.isEmpty then [93] else 44 :: encodeElements es)

/-- The members of an object, each a quoted key, a colon and a value, separated by commas, and
the closing brace. -/
def encodeMembers : List (Bytes × Value) -> Bytes
  | [] => [125]
  | (k, v) :: ms =>
      quoteBytes k ++ 58 :: (v.encode ++ (if ms.isEmpty then [125] else 44 :: encodeMembers ms))

end

mutual

/-- Every number in the value is a literal of the JSON grammar. -/
def Value.WellFormed : Value -> Prop
  | .number lit => NumberLiteral lit
  | .array es => Value.ElementsWellFormed es
  | .object ms => Value.MembersWellFormed ms
  | _ => True

def Value.ElementsWellFormed : List Value -> Prop
  | [] => True
  | e :: es => e.WellFormed ∧ Value.ElementsWellFormed es

def Value.MembersWellFormed : List (Bytes × Value) -> Prop
  | [] => True
  | (_, v) :: ms => v.WellFormed ∧ Value.MembersWellFormed ms

end

mutual

/-- Every string in the value, and every key of its objects, is valid UTF-8. -/
def Value.Utf8Strings : Value -> Prop
  | .string s => ValidUtf8 s
  | .array es => Value.ElementsUtf8 es
  | .object ms => Value.MembersUtf8 ms
  | _ => True

def Value.ElementsUtf8 : List Value -> Prop
  | [] => True
  | e :: es => e.Utf8Strings ∧ Value.ElementsUtf8 es

def Value.MembersUtf8 : List (Bytes × Value) -> Prop
  | [] => True
  | (k, v) :: ms => ValidUtf8 k ∧ v.Utf8Strings ∧ Value.MembersUtf8 ms

end

/-!
## Reading back what was written
-/

theorem isSpace_eq_false {c : UInt8} (h : 32 < c.toNat) : isSpace c = false := by
  simp only [isSpace, Bool.or_eq_false_iff, beq_eq_false_iff_ne, ne_eq]
  refine ⟨⟨⟨?_, ?_⟩, ?_⟩, ?_⟩ <;> rintro rfl <;> exact absurd h (by decide)

theorem numberHead {c : UInt8} (hc : c = 45 ∨ isDigit c = true) :
    isSpace c = false ∧ c ≠ 34 ∧ c ≠ 91 ∧ c ≠ 93 ∧ c ≠ 123 ∧ c ≠ 125 := by
  rcases hc with rfl | hc
  · decide
  · have h : 48 ≤ c.toNat ∧ c.toNat ≤ 57 := by simpa [isDigit] using hc
    refine ⟨isSpace_eq_false (by omega), ?_, ?_, ?_, ?_, ?_⟩ <;> rintro rfl <;>
      exact absurd h (by decide)

theorem Value.encode_cons {v : Value} (hv : v.WellFormed) :
    ∃ c r, v.encode = c :: r ∧ isSpace c = false ∧ c ≠ 93 := by
  cases v with
  | number lit =>
      obtain ⟨c, rest, rfl, hc, -⟩ := scanNumber_literal (t := []) hv rfl
      obtain ⟨hsp, -, -, h93, -⟩ := numberHead hc
      exact ⟨c, rest, rfl, hsp, h93⟩
  | bool b => cases b <;> exact ⟨_, _, rfl, by decide, by decide⟩
  | _ => exact ⟨_, _, rfl, by decide, by decide⟩

theorem parseValue_open_array {n depth : Nat} {s : Bytes}
    (hs : ∃ c r, s = c :: r ∧ isSpace c = false ∧ c ≠ 93)
    (hd : depth + 1 ≤ maxNestingDepth) :
    parseValue (n + 1) depth (91 :: s) = parseElements n (depth + 1) [] s := by
  obtain ⟨c, r, rfl, hc, h93⟩ := hs
  rw [parseValue_array (skipSpace_cons_of_isSpace_eq_false _ (by decide)) hd
    (skipSpace_cons_of_isSpace_eq_false r hc), if_neg h93]

theorem parseValue_open_object {n depth : Nat} {r : Bytes} (hd : depth + 1 ≤ maxNestingDepth) :
    parseValue (n + 1) depth (123 :: 34 :: r) = parseMembers n (depth + 1) [] (34 :: r) := by
  rw [parseValue_object (skipSpace_cons_of_isSpace_eq_false _ (by decide)) hd
    (skipSpace_cons_of_isSpace_eq_false r (by decide)), if_neg (by decide)]

theorem encodeElements_cons_cons (e e' : Value) (es : List Value) :
    encodeElements (e :: e' :: es) = e.encode ++ 44 :: encodeElements (e' :: es) := by
  rw [encodeElements, if_neg (by simp)]

theorem encodeMembers_cons_cons (k : Bytes) (v : Value) (m : Bytes × Value)
    (ms : List (Bytes × Value)) :
    encodeMembers ((k, v) :: m :: ms) =
      quoteBytes k ++ 58 :: (v.encode ++ 44 :: encodeMembers (m :: ms)) := by
  rw [encodeMembers, if_neg (by simp)]

theorem parseMembers_quoteBytes {n depth : Nat} {acc : List (Bytes × Value)} {k r : Bytes}
    {v : Value} {c : UInt8} (hk : ValidUtf8 k) (hc : isSpace c = false)
    (hval : parseValue n depth (v.encode ++ c :: r) = .ok (v, c :: r)) :
    parseMembers (n + 1) depth acc (quoteBytes k ++ 58 :: (v.encode ++ c :: r)) =
      if c = 44 then parseMembers n depth (acc ++ [(k, v)]) r
      else if c = 125 then .ok (.object (acc ++ [(k, v)]), r)
      else .error (.invalid c "after object key:value pair") := by
  rw [quoteBytes, List.cons_append, List.append_assoc, List.singleton_append]
  exact parseMembers_succ (skipSpace_cons_of_isSpace_eq_false _ (by decide))
    (scanString_quoteBytes hk _) (skipSpace_cons_of_isSpace_eq_false _ (by decide)) hval
    (skipSpace_cons_of_isSpace_eq_false _ hc)

theorem parse_encode (n : Nat) :
    (∀ (v : Value) {depth d : Nat} {t : Bytes}, v.WellFormed -> v.Utf8Strings ->
      v.withinDepth d = true ->
      depth + d ≤ maxNestingDepth -> v.encode.length < n -> endsNumber t = true ->
      parseValue n depth (v.encode ++ t) = .ok (v, t)) ∧
    (∀ (es : List Value) {depth d : Nat} {acc : List Value} {t : Bytes}, es ≠ [] ->
      Value.ElementsWellFormed es -> Value.ElementsUtf8 es -> es.all (Value.withinDepth d) = true ->
      depth + d ≤ maxNestingDepth -> (encodeElements es).length < n ->
      parseElements n depth acc (encodeElements es ++ t) = .ok (.array (acc ++ es), t)) ∧
    (∀ (ms : List (Bytes × Value)) {depth d : Nat} {acc : List (Bytes × Value)} {t : Bytes},
      ms ≠ [] -> Value.MembersWellFormed ms -> Value.MembersUtf8 ms ->
      (ms.all fun m => m.2.withinDepth d) = true ->
      depth + d ≤ maxNestingDepth -> (encodeMembers ms).length < n ->
      parseMembers n depth acc (encodeMembers ms ++ t) = .ok (.object (acc ++ ms), t)) := by
  induction n with
  | zero =>
      exact ⟨fun _ _ _ _ _ _ _ _ hn _ => absurd hn (Nat.not_lt_zero _),
        fun _ _ _ _ _ _ _ _ _ _ hn => absurd hn (Nat.not_lt_zero _),
        fun _ _ _ _ _ _ _ _ _ _ hn => absurd hn (Nat.not_lt_zero _)⟩
  | succ m ih =>
      obtain ⟨ihv, ihe, ihm⟩ := ih
      refine ⟨fun v depth d t hv hu hd hdepth hn ht => ?_,
        fun es depth d acc t hne hv hu hd hdepth hn => ?_,
        fun ms depth d acc t hne hv hu hd hdepth hn => ?_⟩
      · cases v with
        | null => rfl
        | bool b => cases b <;> rfl
        | number lit =>
            obtain ⟨c, rest, rfl, hc, hscan⟩ := scanNumber_literal hv ht
            obtain ⟨hsp, h34, h91, -, h123, -⟩ := numberHead hc
            rw [Value.encode, List.cons_append, parseValue_scalar
              (skipSpace_cons_of_isSpace_eq_false _ hsp) h123 h91, parseScalar, if_neg h34,
              if_pos hc, hscan]
            rfl
        | string s =>
            rw [Value.encode, quoteBytes, List.cons_append, parseValue_scalar
              (skipSpace_cons_of_isSpace_eq_false _ (by decide)) (by decide) (by decide),
              parseScalar, if_pos rfl, List.append_assoc, List.singleton_append,
              scanString_quoteBytes hu]
            rfl
        | array es =>
            rcases d with _ | d
            · cases hd
            rw [Value.withinDepth_array] at hd
            rw [Value.encode, List.length_cons] at hn
            cases es with
            | nil =>
                rw [Value.encode, encodeElements, List.cons_append, List.singleton_append,
                  parseValue_array (skipSpace_cons_of_isSpace_eq_false _ (by decide)) (by omega)
                  (skipSpace_cons_of_isSpace_eq_false _ (by decide)), if_pos rfl]
            | cons e es =>
                obtain ⟨c, r, he, hsp, h93⟩ := Value.encode_cons hv.1
                rw [Value.encode, List.cons_append, parseValue_open_array
                  ⟨c, _, by rw [encodeElements, he, List.cons_append, List.cons_append], hsp, h93⟩
                  (by omega), ihe (e :: es) (List.cons_ne_nil _ _) hv hu hd (by omega) (by omega),
                  List.nil_append]
        | object ms =>
            rcases d with _ | d
            · cases hd
            rw [Value.withinDepth_object] at hd
            rw [Value.encode, List.length_cons] at hn
            cases ms with
            | nil =>
                rw [Value.encode, encodeMembers, List.cons_append, List.singleton_append,
                  parseValue_object (skipSpace_cons_of_isSpace_eq_false _ (by decide)) (by omega)
                  (skipSpace_cons_of_isSpace_eq_false _ (by decide)), if_pos rfl]
            | cons p ms =>
                obtain ⟨k, v⟩ := p
                obtain ⟨r, h34⟩ : ∃ r, encodeMembers ((k, v) :: ms) ++ t = 34 :: r :=
                  ⟨_, by rw [encodeMembers, quoteBytes, List.cons_append, List.cons_append]⟩
                rw [Value.encode, List.cons_append, h34, parseValue_open_object (by omega), ← h34,
                  ihm ((k, v) :: ms) (List.cons_ne_nil _ _) hv hu hd (by omega) (by omega),
                  List.nil_append]
      · match es, hne, hv, hu, hd, hn with
        | [e], _, hv, hu, hd, hn =>
            rw [encodeElements, List.isEmpty_nil, if_pos rfl, List.length_append,
              List.length_singleton] at hn
            rw [List.all_cons, List.all_nil, Bool.and_true] at hd
            have hval := ihv e (t := 93 :: t) hv.1 hu.1 hd hdepth (by omega) rfl
            rw [encodeElements, List.isEmpty_nil, if_pos rfl, List.append_assoc,
              List.singleton_append, parseElements_succ hval
              (skipSpace_cons_of_isSpace_eq_false _ (by decide))]
            rfl
        | e :: e' :: es, _, hv, hu, hd, hn =>
            rw [encodeElements_cons_cons, List.length_append, List.length_cons] at hn
            rw [List.all_cons, Bool.and_eq_true] at hd
            have hval := ihv e (t := 44 :: (encodeElements (e' :: es) ++ t)) hv.1 hu.1 hd.1
              hdepth (by omega) rfl
            rw [encodeElements_cons_cons, List.append_assoc, List.cons_append,
              parseElements_succ hval (skipSpace_cons_of_isSpace_eq_false _ (by decide)),
              if_pos rfl,
              ihe _ (List.cons_ne_nil _ _) hv.2 hu.2 hd.2 hdepth (by omega), List.append_assoc,
              List.singleton_append]
      · match ms, hne, hv, hu, hd, hn with
        | [(k, v)], _, hv, hu, hd, hn =>
            rw [encodeMembers, List.isEmpty_nil, if_pos rfl] at hn
            simp only [quoteBytes, List.length_append, List.length_cons] at hn
            rw [List.all_cons, List.all_nil, Bool.and_true] at hd
            have hval := ihv v (t := 125 :: t) hv.1 hu.2.1 hd hdepth (by omega) rfl
            rw [encodeMembers, List.isEmpty_nil, if_pos rfl]
            simp only [List.append_assoc, List.cons_append, List.nil_append]
            rw [parseMembers_quoteBytes hu.1 (by decide) hval]
            rfl
        | (k, v) :: m' :: ms, _, hv, hu, hd, hn =>
            rw [encodeMembers_cons_cons] at hn
            simp only [quoteBytes, List.length_append, List.length_cons] at hn
            rw [List.all_cons, Bool.and_eq_true] at hd
            have hval := ihv v (t := 44 :: (encodeMembers (m' :: ms) ++ t)) hv.1 hu.2.1 hd.1
              hdepth (by omega) rfl
            rw [encodeMembers_cons_cons]
            simp only [List.append_assoc, List.cons_append]
            rw [parseMembers_quoteBytes hu.1 (by decide) hval, if_pos rfl,
              ihm _ (List.cons_ne_nil _ _) hv.2 hu.2.2 hd.2 hdepth (by omega), List.append_assoc,
              List.singleton_append]

/-- `Decode` reads back every value the writer writes, as long as its numbers are literals of
the grammar, its strings and keys are valid UTF-8, and its arrays and objects nest at most
`maxNestingDepth` deep. -/
theorem readValue_encode {v : Value} (hv : v.WellFormed) (hu : v.Utf8Strings)
    (hd : v.withinDepth maxNestingDepth = true) : readValue v.encode = .ok v := by
  have h : parseValue (2 * v.encode.length + 1) 0 (v.encode ++ []) = .ok (v, []) :=
    (parse_encode _).1 v hv hu hd (by simp) (by omega) rfl
  obtain ⟨c, r, hcr, hsp, -⟩ := v.encode_cons hv
  rw [List.append_nil] at h
  unfold readValue
  rw [hcr] at h ⊢
  simp only [skipSpace_cons_of_isSpace_eq_false _ hsp, h]

theorem readValue_encode_escapes :
    readValue (Value.array [.string [34, 10, 0xC3, 0xA9], .number (ascii "-0.5e+3")]).encode =
      .ok (.array [.string [34, 10, 0xC3, 0xA9], .number (ascii "-0.5e+3")]) :=
  readValue_encode ⟨trivial, ⟨[45], ascii "0", ascii ".5", ascii "e+3", rfl, .inr rfl,
    .inl ⟨rfl, rfl⟩, .inr ⟨_, _, rfl, rfl⟩, .inr ⟨_, [43], _, _, rfl, .inl rfl, .inr (.inl rfl),
    rfl⟩⟩, trivial⟩
    ⟨.cons (c := [34]) (.one (by decide)) (.cons (c := [10]) (.one (by decide))
      (.cons (c := [0xC3, 0xA9]) (.two (by decide) (by decide) ⟨by decide, by decide⟩) .nil)),
      trivial, trivial⟩ (by decide)

/-!
## Reading only what is well-formed

The reader builds a value from what its scalar reader returns, from the keys the string scanner
returns and from the values it has built, so a property that those have and that arrays and
objects keep holds of every value it returns (`parse_preserves`). Two such properties follow:
every number is a literal of the grammar, and every string is valid UTF-8.
-/

section Preserves

variable {P : Value -> Prop} {PE : List Value -> Prop} {PM : List (Bytes × Value) -> Prop}
  (scalar : ∀ {c s r v}, parseScalar c s = .ok (v, r) -> P v)
  (array : ∀ {es}, PE es -> P (.array es)) (object : ∀ {ms}, PM ms -> P (.object ms))
  (elementsNil : PE []) (membersNil : PM [])
  (elementsAppend : ∀ {es e}, PE es -> P e -> PE (es ++ [e]))
  (membersAppend : ∀ {ms s k r v}, PM ms -> scanString none s = .ok (k, r) -> P v ->
    PM (ms ++ [(k, v)]))
include scalar array object elementsNil membersNil elementsAppend membersAppend

theorem parse_preserves (n : Nat) :
    (∀ {depth s r v}, parseValue n depth s = .ok (v, r) -> P v) ∧
    (∀ {depth acc s r v}, parseElements n depth acc s = .ok (v, r) -> PE acc -> P v) ∧
    (∀ {depth acc s r v}, parseMembers n depth acc s = .ok (v, r) -> PM acc -> P v) := by
  induction n with
  | zero => refine ⟨?_, ?_, ?_⟩ <;> intros <;> simp_all [parseValue, parseElements, parseMembers]
  | succ n ih =>
      obtain ⟨ihv, ihe, ihm⟩ := ih
      refine ⟨fun h => ?_, fun h hacc => ?_, fun h hacc => ?_⟩
      · obtain ⟨c, rest, -, ⟨-, -, d, rest', -, hcases⟩ | ⟨-, -, hsc⟩⟩ := parseValue_eq_ok h
        · rcases hcases with ⟨-, ⟨-, rfl, -⟩ | ⟨-, hm⟩⟩ | ⟨-, ⟨-, rfl, -⟩ | ⟨-, he⟩⟩
          · exact object membersNil
          · exact ihm hm membersNil
          · exact array elementsNil
          · exact ihe he elementsNil
        · exact scalar hsc
      · obtain ⟨v', r', c, r'', hv, -, ⟨-, he⟩ | ⟨-, rfl, -⟩⟩ := parseElements_eq_ok h
        · exact ihe he (elementsAppend hacc (ihv hv))
        · exact array (elementsAppend hacc (ihv hv))
      · obtain ⟨rest, key, r1, r2, v', r3, c, r4, -, hk, -, hv, -, ⟨-, hm⟩ | ⟨-, rfl, -⟩⟩ :=
          parseMembers_eq_ok h
        · exact ihm hm (membersAppend hacc hk (ihv hv))
        · exact object (membersAppend hacc hk (ihv hv))

theorem readValue_preserves {s : Bytes} {v : Value} (h : readValue s = .ok v) : P v := by
  unfold readValue at h
  split at h
  · cases h
  split at h
  · cases h
    exact (parse_preserves scalar array object elementsNil membersNil elementsAppend
      membersAppend _).1 ‹_›
  all_goals cases h

end Preserves

/-!
### Numbers
-/

theorem Value.ElementsWellFormed.append {es : List Value} {e : Value}
    (hes : Value.ElementsWellFormed es) (he : e.WellFormed) :
    Value.ElementsWellFormed (es ++ [e]) := by
  induction es with
  | nil => exact ⟨he, trivial⟩
  | cons e' es ih => exact ⟨hes.1, ih hes.2⟩

theorem Value.MembersWellFormed.append {ms : List (Bytes × Value)} {k : Bytes} {v : Value}
    (hms : Value.MembersWellFormed ms) (hv : v.WellFormed) :
    Value.MembersWellFormed (ms ++ [(k, v)]) := by
  induction ms with
  | nil => exact ⟨hv, trivial⟩
  | cons m ms ih => exact ⟨hms.1, ih hms.2⟩

theorem parseScalar_wellFormed {c : UInt8} {s r : Bytes} {v : Value}
    (h : parseScalar c s = .ok (v, r)) : v.WellFormed := by
  rcases parseScalar_value h with ⟨b, rfl, -⟩ | ⟨b, rfl, hc, hb⟩ | rfl | rfl | rfl
  · trivial
  · exact scanNumber_eq_ok hc hb
  all_goals trivial

/-- `Decode` accepts only numbers of the JSON grammar: every number in a value it reads is a
literal with an optional minus, no leading zero, and a fraction and an exponent that each have
a digit. -/
theorem readValue_wellFormed {s : Bytes} {v : Value} (h : readValue s = .ok v) : v.WellFormed :=
  readValue_preserves parseScalar_wellFormed id id trivial trivial (fun hes he => hes.append he)
    (fun hms _ hv => hms.append hv) h

theorem readValue_wellFormed_number :
    readValue (ascii "[-0.5e+3]") = .ok (.array [.number (ascii "-0.5e+3")]) ∧
      (Value.array [.number (ascii "-0.5e+3")]).WellFormed :=
  ⟨rfl, readValue_wellFormed (s := ascii "[-0.5e+3]") rfl⟩

/-!
### Strings
-/

theorem validUtf8_pendingBytes (high : Option Nat) : ValidUtf8 (pendingBytes high) := by
  cases high with
  | none => exact .nil
  | some _ => exact .of_utf8Char (utf8Char_encodeRune _)

theorem simpleEscape_ascii {e b : UInt8} (h : simpleEscape e = some b) : b.toNat ≤ 0x7F := by
  unfold simpleEscape at h
  iterate 8 rcases ite_eq_iff.mp h with ⟨-, h⟩ | ⟨-, h⟩ <;> try (cases h; decide)
  cases h

theorem scanRunes_valid_prepend {bs str r more : Bytes} {high : Option Nat}
    (hbs : ValidUtf8 bs) (h : Except.prepend bs (scanRunes 0 high more) = .ok (str, r))
    (ih : ∀ {str}, scanRunes 0 high more = .ok (str, r) ->
      ∃ out, str = more.take 0 ++ out ∧ ValidUtf8 out) :
    ∃ out, str = [] ++ out ∧ ValidUtf8 out := by
  obtain ⟨s', hs, rfl⟩ := Except.exists_of_prepend_eq_ok h
  obtain ⟨out, rfl, hout⟩ := ih hs
  exact ⟨_, rfl, hbs.append hout⟩

theorem scanRunes_valid {k : Nat} {high : Option Nat} {s str r : Bytes}
    (h : scanRunes k high s = .ok (str, r)) : ∃ out, str = s.take k ++ out ∧ ValidUtf8 out := by
  have enc := fun n => ValidUtf8.of_utf8Char (utf8Char_encodeRune n)
  induction k, high, s using scanRunes.induct generalizing str r with
  | case2 copy x b rest ih =>
      rw [scanRunes] at h
      obtain ⟨s', hs, rfl⟩ := Except.exists_of_prepend_eq_ok h
      obtain ⟨out, rfl, hout⟩ := ih hs
      exact ⟨out, by simp, hout⟩
  | case3 high rest =>
      rw [scanRunes.eq_def] at h
      simp only [if_true, Except.ok.injEq, Prod.mk.injEq] at h
      exact ⟨str, rfl, h.1 ▸ validUtf8_pendingBytes high⟩
  | case6 high h1 h2 h3 h4 more r hr v hv _ ih =>
      rw [scanRunes.eq_def] at h
      simp [hr, hv] at h
      exact scanRunes_valid_prepend (enc v) h ih
  | case7 high h1 h2 h3 h4 more r hr hv hsur _ ih =>
      rw [scanRunes.eq_def] at h
      simp [hr, hv, hsur] at h
      exact scanRunes_valid_prepend (validUtf8_pendingBytes high) h ih
  | case8 high h1 h2 h3 h4 more u hu hv hsur _ ih =>
      rw [scanRunes.eq_def] at h
      simp [hu, hv, hsur] at h
      exact scanRunes_valid_prepend ((validUtf8_pendingBytes high).append (enc u)) h ih
  | case11 high e rest' he b hb _ ih =>
      rw [scanRunes.eq_def] at h
      simp [he, hb] at h
      exact scanRunes_valid_prepend
        ((validUtf8_pendingBytes high).append (.of_utf8Char (.one (simpleEscape_ascii hb)))) h ih
  | case14 high c rest h34 h92 hlt h128 ih =>
      rw [scanRunes.eq_def] at h
      simp [h34, h92, hlt, h128] at h
      have hc : c.toNat ≤ 0x7F := Nat.lt_succ_iff.mp h128
      exact scanRunes_valid_prepend ((validUtf8_pendingBytes high).append (.of_utf8Char (.one hc)))
        h ih
  | case15 high c rest h34 h92 hlt h128 hsz ih =>
      rw [scanRunes.eq_def] at h
      simp [h34, h92, hlt, h128, hsz] at h
      exact scanRunes_valid_prepend ((validUtf8_pendingBytes high).append (enc _)) h ih
  | case16 high c rest h34 h92 hlt h128 n hsz ih =>
      rw [scanRunes.eq_def] at h
      simp [h34, h92, hlt, h128, hsz] at h
      obtain ⟨s', hs, rfl⟩ := Except.exists_of_prepend_eq_ok h
      obtain ⟨out, rfl, hout⟩ := ih hs
      refine ⟨_, rfl, ?_⟩
      simpa [List.append_assoc] using (validUtf8_pendingBytes high).append
        ((ValidUtf8.of_utf8Char (utf8Char_of_runeSize hsz)).append hout)
  | _ =>
      rw [scanRunes.eq_def] at h
      simp [*] at h

theorem scanString_valid {high : Option Nat} {s str r : Bytes}
    (h : scanString high s = .ok (str, r)) : ValidUtf8 str := by
  obtain ⟨out, rfl, hout⟩ := scanRunes_valid h
  exact hout

theorem Value.ElementsUtf8.append {es : List Value} {e : Value}
    (hes : Value.ElementsUtf8 es) (he : e.Utf8Strings) : Value.ElementsUtf8 (es ++ [e]) := by
  induction es with
  | nil => exact ⟨he, trivial⟩
  | cons e' es ih => exact ⟨hes.1, ih hes.2⟩

theorem Value.MembersUtf8.append {ms : List (Bytes × Value)} {k : Bytes} {v : Value}
    (hms : Value.MembersUtf8 ms) (hk : ValidUtf8 k) (hv : v.Utf8Strings) :
    Value.MembersUtf8 (ms ++ [(k, v)]) := by
  induction ms with
  | nil => exact ⟨hk, hv, trivial⟩
  | cons m ms ih => exact ⟨hms.1, hms.2.1, ih hms.2.2⟩

theorem parseScalar_utf8Strings {c : UInt8} {s r : Bytes} {v : Value}
    (h : parseScalar c s = .ok (v, r)) : v.Utf8Strings := by
  rcases parseScalar_value h with ⟨b, rfl, hb⟩ | ⟨b, rfl, -⟩ | rfl | rfl | rfl
  · exact scanString_valid hb
  all_goals trivial

/-- `Decode` returns only valid UTF-8: every string in a value it reads, and every key of its
objects, is valid UTF-8, whatever bytes the text held. -/
theorem readValue_utf8Strings {s : Bytes} {v : Value} (h : readValue s = .ok v) :
    v.Utf8Strings :=
  readValue_preserves parseScalar_utf8Strings id id trivial trivial (fun hes he => hes.append he)
    (fun hms hk hv => hms.append (scanString_valid hk) hv) h

theorem readValue_utf8Strings_invalid_byte :
    readValue [34, 0xFF, 34] = .ok (.string [0xEF, 0xBF, 0xBD]) ∧
      (Value.string [0xEF, 0xBF, 0xBD]).Utf8Strings :=
  ⟨rfl, readValue_utf8Strings (s := [34, 0xFF, 34]) rfl⟩

end Json
end GoTuf
