import GoTuf.Encoding.Json

/-!
# Reading well-formed text

One lemma for each step the reader takes through text it accepts: a token not preceded by
whitespace, a string of plain bytes and a value that is such a string. With the member step
`parseMembers_succ` they read the members of an object whose values are plain strings.
-/

namespace GoTuf
namespace Json

/-- A byte a string holds as it is: ASCII, and not a quote, a backslash or a control byte. -/
def plainByte (c : UInt8) : Bool :=
  c != 34 && c != 92 && !(c < 32) && c < 128

@[simp] theorem skipSpace_cons_of_isSpace_eq_false {c : UInt8} (s : Bytes) (h : isSpace c = false) :
    skipSpace (c :: s) = c :: s := by
  simp [skipSpace, h]

theorem scanString_plain {l : Bytes} (hl : ∀ c ∈ l, plainByte c = true) (rest : Bytes) :
    scanString none (l ++ 34 :: rest) = .ok (l, rest) := by
  induction l with
  | nil =>
      rw [List.nil_append, scanString, scanRunes.eq_def]
      rfl
  | cons c l ih =>
      have hc := hl c (List.mem_cons_self c l)
      simp only [plainByte, Bool.and_eq_true, bne_iff_ne, ne_eq, Bool.not_eq_true',
        decide_eq_false_iff_not, decide_eq_true_eq] at hc
      rw [scanString, List.cons_append, scanRunes.eq_def]
      simp only [hc.1.1.1, hc.1.1.2, hc.1.2, hc.2, if_false, if_true, pendingBytes, List.nil_append]
      rw [← scanString, ih fun d hd => hl d (List.mem_cons_of_mem c hd)]
      rfl

theorem parseValue_string (n depth : Nat) {l : Bytes} (hl : ∀ c ∈ l, plainByte c = true)
    (rest : Bytes) : parseValue (n + 1) depth (34 :: (l ++ 34 :: rest)) = .ok (.string l, rest) := by
  simp [parseValue, parseScalar, isSpace, scanString_plain hl, withValue]

def membersText : List (Bytes × Bytes) -> Bytes
  | [] => [125]
  | (k, t) :: ms =>
      34 :: (k ++ 34 :: 58 :: 34 :: (t ++ 34 :: (if ms.isEmpty then [125] else
        44 :: membersText ms)))

def PlainMembers (ms : List (Bytes × Bytes)) : Prop :=
  ∀ p ∈ ms, (∀ c ∈ p.1, plainByte c = true) ∧ (∀ c ∈ p.2, plainByte c = true)

theorem length_le_membersText (ms : List (Bytes × Bytes)) : ms.length ≤ (membersText ms).length := by
  induction ms with
  | nil => simp
  | cons p ms ih =>
      obtain ⟨k, t⟩ := p
      cases ms with
      | nil => simp [membersText]
      | cons q ms =>
          simp_all [membersText]
          omega

theorem parseMembers_membersText {ms : List (Bytes × Bytes)} (hne : ms ≠ []) (hp : PlainMembers ms)
    {n : Nat} (hn : ms.length < n) (depth : Nat) (acc : List (Bytes × Value)) (rest : Bytes) :
    parseMembers n depth acc (membersText ms ++ rest) =
      .ok (.object (acc ++ ms.map fun p => (p.1, .string p.2)), rest) := by
  induction ms generalizing n acc with
  | nil => exact absurd rfl hne
  | cons p ms ih =>
      obtain ⟨k, t⟩ := p
      obtain ⟨hk, ht⟩ : (∀ c ∈ k, plainByte c = true) ∧ (∀ c ∈ t, plainByte c = true) :=
        hp (k, t) (List.mem_cons_self _ _)
      obtain ⟨m, rfl⟩ : ∃ m, n = m + 2 := ⟨n - 2, by simp only [List.length_cons] at hn; omega⟩
      generalize hX : (if ms.isEmpty then [125] else 44 :: membersText ms) ++ rest = X
      have hs : skipSpace (membersText ((k, t) :: ms) ++ rest) =
          34 :: (k ++ 34 :: 58 :: 34 :: (t ++ 34 :: X)) := by
        simp [membersText, isSpace, ← hX]
      have h1 : skipSpace (58 :: 34 :: (t ++ 34 :: X)) = 58 :: 34 :: (t ++ 34 :: X) := by
        simp [isSpace]
      have hv := parseValue_string m depth ht X
      cases ms with
      | nil =>
          simp only [List.isEmpty_nil, if_true, List.singleton_append] at hX
          subst hX
          rw [parseMembers_succ hs (scanString_plain hk _) h1 hv
            (skipSpace_cons_of_isSpace_eq_false rest (by decide))]
          simp
      | cons q ms =>
          simp only [List.isEmpty_cons, if_false, List.cons_append] at hX
          subst hX
          rw [parseMembers_succ hs (scanString_plain hk _) h1 hv
            (skipSpace_cons_of_isSpace_eq_false _ (by decide)), if_pos rfl]
          show parseMembers (m + 1) depth _ (membersText (q :: ms) ++ rest) = _
          rw [ih (List.cons_ne_nil _ _) (fun p hp' => hp p (List.mem_cons_of_mem _ hp'))
            (by simp only [List.length_cons] at hn ⊢; omega)]
          simp

theorem readValue_object {ms : List (Bytes × Bytes)} (hne : ms ≠ []) (hp : PlainMembers ms) :
    readValue (123 :: membersText ms) = .ok (.object (ms.map fun p => (p.1, .string p.2))) := by
  obtain ⟨⟨k, t⟩, ms', rfl⟩ := List.exists_cons_of_ne_nil hne
  have hlen := length_le_membersText ((k, t) :: ms')
  have hstart : membersText ((k, t) :: ms') = 34 :: (k ++ 34 :: 58 :: 34 :: (t ++ 34 ::
      (if ms'.isEmpty then [125] else 44 :: membersText ms'))) := rfl
  obtain ⟨m, hm⟩ : ∃ m, 2 * (123 :: membersText ((k, t) :: ms')).length = m + 1 :=
    ⟨2 * (membersText ((k, t) :: ms')).length + 1, by simp; omega⟩
  have hmem := parseMembers_membersText hne hp (n := m + 1) (by simp at hm hlen ⊢; omega) 1 [] []
  rw [List.append_nil, hstart] at hmem
  unfold readValue
  simp only [skipSpace_cons_of_isSpace_eq_false _ (show isSpace 123 = false by decide), hm]
  rw [parseValue]
  simp only [skipSpace_cons_of_isSpace_eq_false _ (show isSpace 123 = false by decide), if_true,
    show ¬ maxNestingDepth < 0 + 1 by decide, if_false, hstart,
    skipSpace_cons_of_isSpace_eq_false _ (show isSpace 34 = false by decide),
    show (34 : UInt8) ≠ 125 by decide, hmem]
  simp

end Json
end GoTuf
