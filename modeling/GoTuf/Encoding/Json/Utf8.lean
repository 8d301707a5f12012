import GoTuf.Encoding.Json

/-!
# UTF-8 in string literals

The syntax of a UTF-8 character, transcribed from RFC 3629 §4, and what `utf8.DecodeRune`
(`runeSize`) makes of it. `unquoteBytes` keeps each rune `DecodeRune` accepts and writes U+FFFD
for every other byte from `0x80` on:

* `runeSize_utf8Char`: `DecodeRune` reads a character of more than one byte whole, whatever
  follows it;
* `utf8Char_of_runeSize`: what it reads is such a character;
* `runeSize_append`: text appended after a closing quote does not change what it reads.
-/

namespace GoTuf
namespace Json

/-! ## RFC 3629 §4 -/

def Tail (b : UInt8) : Prop := 0x80 ≤ b.toNat ∧ b.toNat ≤ 0xBF

/-- `UTF8-char = UTF8-1 / UTF8-2 / UTF8-3 / UTF8-4`, one constructor per alternative. -/
inductive Utf8Char : Bytes → Prop
  | one {a : UInt8} : a.toNat ≤ 0x7F → Utf8Char [a]
  | two {a b : UInt8} : 0xC2 ≤ a.toNat → a.toNat ≤ 0xDF → Tail b → Utf8Char [a, b]
  | e0 {a b c : UInt8} : a.toNat = 0xE0 → 0xA0 ≤ b.toNat → b.toNat ≤ 0xBF → Tail c →
      Utf8Char [a, b, c]
  | e1ec {a b c : UInt8} : 0xE1 ≤ a.toNat → a.toNat ≤ 0xEC → Tail b → Tail c → Utf8Char [a, b, c]
  | ed {a b c : UInt8} : a.toNat = 0xED → 0x80 ≤ b.toNat → b.toNat ≤ 0x9F → Tail c →
      Utf8Char [a, b, c]
  | eeef {a b c : UInt8} : 0xEE ≤ a.toNat → a.toNat ≤ 0xEF → Tail b → Tail c → Utf8Char [a, b, c]
  | f0 {a b c d : UInt8} : a.toNat = 0xF0 → 0x90 ≤ b.toNat → b.toNat ≤ 0xBF → Tail c → Tail d →
      Utf8Char [a, b, c, d]
  | f1f3 {a b c d : UInt8} : 0xF1 ≤ a.toNat → a.toNat ≤ 0xF3 → Tail b → Tail c → Tail d →
      Utf8Char [a, b, c, d]
  | f4 {a b c d : UInt8} : a.toNat = 0xF4 → 0x80 ≤ b.toNat → b.toNat ≤ 0x8F → Tail c → Tail d →
      Utf8Char [a, b, c, d]

inductive ValidUtf8 : Bytes → Prop
  | nil : ValidUtf8 []
  | cons {c rest : Bytes} : Utf8Char c → ValidUtf8 rest → ValidUtf8 (c ++ rest)

theorem Utf8Char.ascii_or_high {c : Bytes} (h : Utf8Char c) :
    (∃ a, c = [a] ∧ a.toNat < 0x80) ∨ ∃ a cs, c = a :: cs ∧ ∀ b ∈ c, 0x80 ≤ b.toNat := by
  cases h with
  | one h1 => exact .inl ⟨_, rfl, by omega⟩
  | _ =>
      refine .inr ⟨_, _, rfl, fun b hb => ?_⟩
      simp only [Tail, List.mem_cons, List.not_mem_nil, or_false] at *
      rcases hb with rfl | rfl | rfl | rfl <;> omega

theorem ValidUtf8.append {s t : Bytes} (hs : ValidUtf8 s) (ht : ValidUtf8 t) :
    ValidUtf8 (s ++ t) := by
  induction hs with
  | nil => exact ht
  | cons hc _ ih => rw [List.append_assoc]; exact .cons hc ih

theorem ValidUtf8.of_utf8Char {c : Bytes} (h : Utf8Char c) : ValidUtf8 c := by
  simpa using ValidUtf8.cons h .nil

/-! ## What `DecodeRune` reads -/

theorem runeStart_cases (c : UInt8) :
    (0xC2 ≤ c.toNat ∧ c.toNat ≤ 0xDF ∧ runeStart c = some (2, 0x80, 0xBF)) ∨
    (c.toNat = 0xE0 ∧ runeStart c = some (3, 0xA0, 0xBF)) ∨
    (c.toNat = 0xED ∧ runeStart c = some (3, 0x80, 0x9F)) ∨
    (0xE1 ≤ c.toNat ∧ c.toNat ≤ 0xEF ∧ c.toNat ≠ 0xED ∧ runeStart c = some (3, 0x80, 0xBF)) ∨
    (c.toNat = 0xF0 ∧ runeStart c = some (4, 0x90, 0xBF)) ∨
    (c.toNat = 0xF4 ∧ runeStart c = some (4, 0x80, 0x8F)) ∨
    (0xF1 ≤ c.toNat ∧ c.toNat ≤ 0xF3 ∧ runeStart c = some (4, 0x80, 0xBF)) ∨
    ((c.toNat < 0xC2 ∨ 0xF4 < c.toNat) ∧ runeStart c = none) := by
  simp only [runeStart]
  by_cases h1 : 0xC2 ≤ c.toNat ∧ c.toNat ≤ 0xDF
  · exact .inl ⟨h1.1, h1.2, if_pos h1⟩
  rw [if_neg h1]
  by_cases h2 : c.toNat = 0xE0
  · exact .inr (.inl ⟨h2, if_pos h2⟩)
  rw [if_neg h2]
  by_cases h3 : c.toNat = 0xED
  · exact .inr (.inr (.inl ⟨h3, if_pos h3⟩))
  rw [if_neg h3]
  by_cases h4 : 0xE1 ≤ c.toNat ∧ c.toNat ≤ 0xEF
  · exact .inr (.inr (.inr (.inl ⟨h4.1, h4.2, h3, if_pos h4⟩)))
  rw [if_neg h4]
  by_cases h5 : c.toNat = 0xF0
  · exact .inr (.inr (.inr (.inr (.inl ⟨h5, if_pos h5⟩))))
  rw [if_neg h5]
  by_cases h6 : c.toNat = 0xF4
  · exact .inr (.inr (.inr (.inr (.inr (.inl ⟨h6, if_pos h6⟩)))))
  rw [if_neg h6]
  by_cases h7 : 0xF1 ≤ c.toNat ∧ c.toNat ≤ 0xF3
  · exact .inr (.inr (.inr (.inr (.inr (.inr (.inl ⟨h7.1, h7.2, if_pos h7⟩))))))
  rw [if_neg h7]
  exact .inr (.inr (.inr (.inr (.inr (.inr (.inr ⟨by omega, rfl⟩))))))

theorem runeStart_eq_some {c : UInt8} {sz lo hi : Nat} (h : runeStart c = some (sz, lo, hi)) :
    (sz = 2 ∨ sz = 3 ∨ sz = 4) ∧ 0x80 ≤ lo := by
  rcases runeStart_cases c with ⟨-, -, hs⟩ | ⟨-, hs⟩ | ⟨-, hs⟩ | ⟨-, -, -, hs⟩ | ⟨-, hs⟩ | ⟨-, hs⟩ |
    ⟨-, -, hs⟩ | ⟨-, hs⟩ <;> rw [hs] at h <;> cases h <;> decide

theorem runeSize_cases (c : UInt8) (rest : Bytes) :
    runeSize c rest = 0 ∨ (runeSize c rest = 2 ∧ ∃ b1 more, rest = b1 :: more) ∨
      (runeSize c rest = 3 ∧ ∃ b1 b2 more, rest = b1 :: b2 :: more) ∨
      (runeSize c rest = 4 ∧ ∃ b1 b2 b3 more, rest = b1 :: b2 :: b3 :: more) := by
  rcases hs : runeStart c with _ | ⟨sz, lo, hi⟩ <;> rcases rest with _ | ⟨b1, more⟩ <;>
    simp only [runeSize, hs, true_or]
  split_ifs with hc
  · rcases (runeStart_eq_some hs).1 with rfl | rfl | rfl
    · exact .inr (.inl ⟨rfl, _, _, rfl⟩)
    · rcases more with _ | ⟨b2, more⟩
      · simp at hc
      · exact .inr (.inr (.inl ⟨rfl, _, _, _, rfl⟩))
    · rcases more with _ | ⟨b2, _ | ⟨b3, more⟩⟩
      · simp at hc
      · simp at hc
      · exact .inr (.inr (.inr ⟨rfl, _, _, _, _, rfl⟩))
  · exact .inl rfl

theorem runeSize_eq_zero {c : UInt8} {rest : Bytes}
    (h2 : ∀ b1 more, runeSize c rest = 2 → rest = b1 :: more → False)
    (h3 : ∀ b1 b2 more, runeSize c rest = 3 → rest = b1 :: b2 :: more → False)
    (h4 : ∀ b1 b2 b3 more, runeSize c rest = 4 → rest = b1 :: b2 :: b3 :: more → False) :
    runeSize c rest = 0 := by
  rcases runeSize_cases c rest with h | ⟨h, _, _, hr⟩ | ⟨h, _, _, _, hr⟩ | ⟨h, _, _, _, _, hr⟩
  · exact h
  · exact (h2 _ _ h hr).elim
  · exact (h3 _ _ _ h hr).elim
  · exact (h4 _ _ _ _ h hr).elim

theorem runeSize_append_of_ne_zero {c : UInt8} {rest : Bytes} (t : Bytes)
    (h : runeSize c rest ≠ 0) : runeSize c (rest ++ t) = runeSize c rest := by
  rcases hs : runeStart c with _ | ⟨sz, lo, hi⟩ <;> rcases rest with _ | ⟨b1, more⟩ <;>
    simp only [runeSize, hs, List.cons_append, ne_eq, not_true_eq_false] at h ⊢
  split_ifs at h with hc
  · rw [List.take_append_of_le_length hc.2.2.1, if_pos ⟨hc.1, hc.2.1, by simp; omega, hc.2.2.2⟩,
      if_pos hc]
  · exact absurd rfl h

theorem runeSize_append {c : UInt8} {rest : Bytes} (t : Bytes) (h34 : (34 : UInt8) ∈ rest) :
    runeSize c (rest ++ t) = runeSize c rest := by
  by_cases h : runeSize c rest = 0
  · rw [h]
    rcases hs : runeStart c with _ | ⟨sz, lo, hi⟩
    · unfold runeSize
      split <;> simp_all
    rcases rest with _ | ⟨b1, more⟩
    · cases h34
    simp only [runeSize, hs, List.cons_append] at h ⊢
    have hsz := runeStart_eq_some hs
    split_ifs at h with hn
    · omega
    rw [if_neg]
    rintro ⟨h1, h2, h3, h4⟩
    rcases List.mem_cons.mp h34 with rfl | hm
    · have : lo ≤ 34 := h1
      omega
    by_cases hlen : sz - 2 ≤ more.length
    · exact hn ⟨h1, h2, hlen, by rwa [List.take_append_of_le_length hlen] at h4⟩
    · have hsub : more ⊆ (more ++ t).take (sz - 2) := by
        rw [List.take_append_eq_append_take, List.take_of_length_le (by omega)]
        exact List.subset_append_left _ _
      exact absurd (List.all_eq_true.mp h4 34 (hsub hm)) (by decide)
  · exact runeSize_append_of_ne_zero t h

theorem runeSize_cons {c b : UInt8} {more : Bytes} {sz lo hi : Nat}
    (hs : runeStart c = some (sz, lo, hi)) (hb : lo ≤ b.toNat ∧ b.toNat ≤ hi)
    (hm : sz - 2 ≤ more.length) (ht : ∀ x ∈ more.take (sz - 2), Tail x) :
    runeSize c (b :: more) = sz := by
  simp only [runeSize, hs]
  rw [if_pos ⟨hb.1, hb.2, hm, List.all_eq_true.mpr fun x hx => by
    simpa [isContinuation, Tail] using ht x hx⟩]

theorem runeSize_utf8Char {a : UInt8} {cs : Bytes} (h : Utf8Char (a :: cs))
    (ha : 0x80 ≤ a.toNat) (u : Bytes) : runeSize a (cs ++ u) = cs.length + 1 := by
  cases h with
  | one h1 => omega
  | _ =>
      simp only [Tail] at *
      simp only [List.cons_append, List.nil_append, List.length_cons, List.length_nil]
      rcases runeStart_cases a with ⟨_, _, hs⟩ | ⟨_, hs⟩ | ⟨_, hs⟩ | ⟨_, _, _, hs⟩ | ⟨_, hs⟩ |
        ⟨_, hs⟩ | ⟨_, _, hs⟩ | ⟨_, hs⟩ <;>
        first
        | omega
        | exact runeSize_cons hs (by omega) (by simp) (by simp [Tail] <;> omega)

theorem utf8Char_of_runeSize {c : UInt8} {rest : Bytes} {n : Nat} (h : runeSize c rest = n + 1) :
    Utf8Char (c :: rest.take n) := by
  rcases rest with _ | ⟨b1, more⟩
  · simp [runeSize] at h
  rcases hs : runeStart c with _ | ⟨sz, lo, hi⟩
  · simp [runeSize, hs] at h
  simp only [runeSize, hs] at h
  split_ifs at h with hc
  subst h
  obtain ⟨hlo, hhi, hlen, hall⟩ := hc
  have tail : ∀ b ∈ more.take (n + 1 - 2), Tail b := fun b hb => by
    simpa [isContinuation, Tail] using List.all_eq_true.mp hall b hb
  rcases runeStart_cases c with ⟨h1, h2, hs'⟩ | ⟨h1, hs'⟩ | ⟨h1, hs'⟩ | ⟨h1, h2, h3, hs'⟩ |
    ⟨h1, hs'⟩ | ⟨h1, hs'⟩ | ⟨h1, h2, hs'⟩ | ⟨-, hs'⟩ <;> rw [hs'] at hs <;> cases hs
  · exact .two h1 h2 ⟨hlo, hhi⟩
  all_goals rcases more with _ | ⟨b2, more⟩; · simp at hlen
  · exact .e0 h1 hlo hhi (tail b2 (by simp))
  · exact .ed h1 hlo hhi (tail b2 (by simp))
  · by_cases hec : c.toNat ≤ 0xEC
    · exact .e1ec h1 hec ⟨hlo, hhi⟩ (tail b2 (by simp))
    · exact .eeef (by omega) h2 ⟨hlo, hhi⟩ (tail b2 (by simp))
  all_goals rcases more with _ | ⟨b3, more⟩; · simp at hlen
  · exact .f0 h1 hlo hhi (tail b2 (by simp)) (tail b3 (by simp))
  · exact .f4 h1 hlo hhi (tail b2 (by simp)) (tail b3 (by simp))
  · exact .f1f3 h1 h2 ⟨hlo, hhi⟩ (tail b2 (by simp)) (tail b3 (by simp))

theorem tail_ofNat (n : Nat) : Tail (UInt8.ofNat (0x80 + n % 64)) := by
  have h : (UInt8.ofNat (0x80 + n % 64)).toNat = 0x80 + n % 64 :=
    UInt8.toNat_ofNat_of_lt (show _ < 256 by omega)
  exact ⟨by omega, by omega⟩

theorem utf8Char_encodeRune (r : Nat) : Utf8Char (encodeRune r) := by
  have t : ∀ {n}, n < 256 → (UInt8.ofNat n).toNat = n := UInt8.toNat_ofNat_of_lt
  unfold encodeRune
  split_ifs with h1 h2 h3 h4
  · exact .one (by rw [t (by omega)]; omega)
  · have e1 := t (n := 0xC0 + r / 64) (by omega)
    exact .two (by omega) (by omega) (tail_ofNat r)
  · exact .eeef (by decide) (by decide) ⟨by decide, by decide⟩ ⟨by decide, by decide⟩
  · have e1 := t (n := 0xE0 + r / 4096) (by omega)
    have e2 := t (n := 0x80 + r / 64 % 64) (by omega)
    rcases Nat.lt_or_ge r 0x1000 with ha | ha
    · exact .e0 (by omega) (by omega) (by omega) (tail_ofNat r)
    rcases Nat.lt_or_ge r 0xD000 with hb | hb
    · exact .e1ec (by omega) (by omega) (tail_ofNat _) (tail_ofNat r)
    rcases Nat.lt_or_ge r 0xE000 with hc | hc
    · exact .ed (by omega) (by omega) (by omega) (tail_ofNat r)
    · exact .eeef (by omega) (by omega) (tail_ofNat _) (tail_ofNat r)
  · have e1 := t (n := 0xF0 + r / 262144) (by omega)
    have e2 := t (n := 0x80 + r / 4096 % 64) (by omega)
    rcases Nat.lt_or_ge r 0x40000 with ha | ha
    · exact .f0 (by omega) (by omega) (by omega) (tail_ofNat _) (tail_ofNat r)
    rcases Nat.lt_or_ge r 0x100000 with hb | hb
    · exact .f1f3 (by omega) (by omega) (tail_ofNat _) (tail_ofNat _) (tail_ofNat r)
    · exact .f4 (by omega) (by omega) (by omega) (tail_ofNat _) (tail_ofNat r)

end Json
end GoTuf
