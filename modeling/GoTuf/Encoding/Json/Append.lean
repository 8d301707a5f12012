import GoTuf.Encoding.Json.Utf8

/-!
# What follows a value is never read

Each piece of the reader that succeeds on `s` succeeds in the same way on `s ++ t`, leaving `t`
behind what it left before. Numbers are the exception the scanner has: a number that ends the
input could go on in `t`, so their lemmas assume that something follows.
-/

namespace GoTuf
namespace Json

@[simp] theorem Except.prepend_ok {ε : Type} (bs s r : Bytes) :
    Except.prepend (ε := ε) bs (.ok (s, r)) = .ok (bs ++ s, r) := rfl

@[simp] theorem Except.prepend_error {ε : Type} (bs : Bytes) (e : ε) :
    Except.prepend bs (.error e) = .error e := rfl

@[simp] theorem Except.prepend_nil {ε : Type} (x : Except ε (Bytes × Bytes)) :
    Except.prepend [] x = x := by
  rcases x with e | ⟨s, r⟩ <;> rfl

theorem Except.prepend_prepend {ε : Type} (bs bs' : Bytes) (x : Except ε (Bytes × Bytes)) :
    Except.prepend bs (Except.prepend bs' x) = Except.prepend (bs ++ bs') x := by
  rcases x with e | ⟨s, r⟩
  · rfl
  · simp [List.append_assoc]

theorem Except.prepend_shift {ε : Type} {bs str r t : Bytes} {x y : Except ε (Bytes × Bytes)}
    (h : Except.prepend bs x = .ok (str, r)) (hxy : ∀ s, x = .ok (s, r) -> y = .ok (s, r ++ t)) :
    Except.prepend bs y = .ok (str, r ++ t) := by
  rcases x with e | ⟨s, r'⟩
  · cases h
  · simp only [Except.prepend, Except.ok.injEq, Prod.mk.injEq] at h
    obtain ⟨rfl, rfl⟩ := h
    rw [hxy s rfl]
    rfl

theorem Except.exists_of_prepend_eq_ok {ε : Type} {bs str r : Bytes}
    {x : Except ε (Bytes × Bytes)} (h : Except.prepend bs x = .ok (str, r)) :
    exists s, x = .ok (s, r) ∧ str = bs ++ s := by
  rcases x with e | ⟨s, r'⟩
  · cases h
  · simp only [Except.prepend, Except.ok.injEq, Prod.mk.injEq] at h
    exact ⟨s, by rw [h.2], h.1.symm⟩

theorem skipSpace_append {s r : Bytes} {c : UInt8} (t : Bytes) (h : skipSpace s = c :: r) :
    skipSpace (s ++ t) = c :: (r ++ t) := by
  induction s with
  | nil => cases h
  | cons x xs ih =>
      simp only [skipSpace, List.cons_append] at h ⊢
      split at h
      · rw [if_pos ‹_›]
        exact ih h
      · rw [if_neg ‹_›]
        cases h
        rfl

theorem expectLetters_append {word : String} {ws s r : Bytes} (t : Bytes)
    (h : expectLetters word ws s = .ok r) : expectLetters word ws (s ++ t) = .ok (r ++ t) := by
  induction ws generalizing s with
  | nil =>
      cases h
      rfl
  | cons w ws ih =>
      cases s with
      | nil => cases h
      | cons c rest =>
          simp only [expectLetters, List.cons_append] at h ⊢
          split at h
          · rw [if_pos ‹_›]
            exact ih h
          · cases h

theorem expectLetters_suffix {word : String} {ws s r : Bytes}
    (h : expectLetters word ws s = .ok r) : r <:+ s := by
  induction ws generalizing s with
  | nil =>
      cases h
      exact List.suffix_refl _
  | cons w ws ih =>
      cases s with
      | nil => cases h
      | cons c rest =>
          simp only [expectLetters] at h
          split at h
          · exact (ih h).trans (List.suffix_cons _ _)
          · cases h

theorem scanRunes_quote_suffix {k : Nat} {high : Option Nat} {s str r : Bytes}
    (h : scanRunes k high s = .ok (str, r)) : 34 :: r <:+ s := by
  induction k, high, s using scanRunes.induct generalizing str r with
  | case3 high rest =>
      rw [scanRunes.eq_def] at h
      simp only [if_true, Except.ok.injEq, Prod.mk.injEq] at h
      exact h.2 ▸ List.suffix_refl _
  | case6 high h1 h2 h3 h4 more r hr v hv _ ih | case7 high h1 h2 h3 h4 more r hr v hv _ ih
  | case8 high h1 h2 h3 h4 more r hr v hv _ ih =>
      rw [scanRunes.eq_def] at h
      simp [hr, hv, *] at h
      obtain ⟨s, hs, -⟩ := Except.exists_of_prepend_eq_ok h
      exact (ih hs).trans (by simp [List.suffix_cons_iff])
  | case11 high e rest' he b hb _ ih =>
      rw [scanRunes.eq_def] at h
      simp [*] at h
      obtain ⟨s, hs, -⟩ := Except.exists_of_prepend_eq_ok h
      exact (ih hs).trans (by simp [List.suffix_cons_iff])
  | case2 _ _ _ _ ih | case14 _ _ _ _ _ _ _ ih | case15 _ _ _ _ _ _ _ _ ih
  | case16 _ _ _ _ _ _ _ _ _ ih =>
      rw [scanRunes.eq_def] at h
      simp [*] at h
      obtain ⟨s, hs, -⟩ := Except.exists_of_prepend_eq_ok h
      exact (ih hs).trans (List.suffix_cons _ _)
  | _ =>
      rw [scanRunes.eq_def] at h
      simp [*] at h

theorem scanString_suffix {high : Option Nat} {s str r : Bytes}
    (h : scanString high s = .ok (str, r)) : r <:+ s :=
  (List.suffix_cons 34 r).trans (scanRunes_quote_suffix h)

theorem runeSize_append_of_scanRunes {c : UInt8} {rest str r : Bytes} {high : Option Nat}
    (t : Bytes) (h : scanRunes 0 high rest = .ok (str, r)) :
    runeSize c (rest ++ t) = runeSize c rest :=
  runeSize_append t ((scanRunes_quote_suffix h).subset (List.mem_cons_self _ _))

theorem scanRunes_append {k : Nat} {high : Option Nat} {s str r : Bytes} (t : Bytes)
    (h : scanRunes k high s = .ok (str, r)) : scanRunes k high (s ++ t) = .ok (str, r ++ t) := by
  induction k, high, s using scanRunes.induct generalizing str r with
  | case1 => simp [scanRunes] at h
  | case3 high rest =>
      rw [scanRunes.eq_def] at h ⊢
      simp only [if_true] at h ⊢
      cases h
      rfl
  | case4 high => simp [scanRunes] at h
  | case5 high h1 h2 h3 h4 more err hr =>
      rw [scanRunes.eq_def] at h
      simp [hr] at h
  | case6 high h1 h2 h3 h4 more r hr v hv _ ih =>
      rw [scanRunes.eq_def] at h ⊢
      simp [hr, hv] at h ⊢
      exact Except.prepend_shift h fun _ hs => ih hs
  | case7 high h1 h2 h3 h4 more r hr hv hsur _ ih | case8 high h1 h2 h3 h4 more r hr hv hsur _ ih =>
      rw [scanRunes.eq_def] at h ⊢
      simp [hr, hv, hsur] at h ⊢
      exact Except.prepend_shift h fun _ hs => ih hs
  | case9 high short hshort err hr | case10 high short hshort err hr =>
      rw [scanRunes.eq_def] at h
      simp only [if_false, if_true, show (92 : UInt8) ≠ 34 by decide] at h
      split at h <;> simp_all
  | case11 high e rest' he b hb _ ih =>
      rw [scanRunes.eq_def] at h ⊢
      simp [he, hb] at h ⊢
      exact Except.prepend_shift h fun _ hs => ih hs
  | case12 high e rest' he hb =>
      rw [scanRunes.eq_def] at h
      simp [he, hb] at h
  | case13 high c rest h34 h92 hlt =>
      rw [scanRunes.eq_def] at h
      simp [h34, h92, hlt] at h
  | case2 _ _ _ _ ih | case14 _ _ _ _ _ _ _ ih =>
      rw [scanRunes.eq_def] at h ⊢
      simp [*] at h ⊢
      exact Except.prepend_shift h fun _ hs => ih hs
  | case15 high c rest h34 h92 hlt h128 hsz ih =>
      rw [scanRunes.eq_def] at h
      simp [h34, h92, hlt, h128, hsz] at h
      obtain ⟨s, hs, -⟩ := Except.exists_of_prepend_eq_ok h
      rw [scanRunes.eq_def]
      simp [h34, h92, hlt, h128, runeSize_append_of_scanRunes t hs, hsz]
      exact Except.prepend_shift h fun _ hs => ih hs
  | case16 high c rest h34 h92 hlt h128 n hsz ih =>
      rw [scanRunes.eq_def] at h ⊢
      simp [h34, h92, hlt, h128, hsz, runeSize_append_of_ne_zero t (by omega : runeSize c rest ≠ 0)] at h ⊢
      exact Except.prepend_shift h fun _ hs => ih hs

theorem scanString_append {high : Option Nat} {s str r : Bytes} (t : Bytes)
    (h : scanString high s = .ok (str, r)) : scanString high (s ++ t) = .ok (str, r ++ t) :=
  scanRunes_append t h

theorem skipSpace_suffix (s : Bytes) : skipSpace s <:+ s := by
  induction s with
  | nil => exact List.suffix_refl _
  | cons x xs ih =>
      simp only [skipSpace]
      split
      · exact ih.trans (List.suffix_cons _ _)
      · exact List.suffix_refl _

theorem takeWhile_dropWhile_append {p : UInt8 -> Bool} {s : Bytes} (t : Bytes)
    (h : s.dropWhile p ≠ []) :
    (s ++ t).takeWhile p = s.takeWhile p ∧ (s ++ t).dropWhile p = s.dropWhile p ++ t := by
  induction s with
  | nil => simp at h
  | cons x xs ih =>
      by_cases hx : p x
      · simp only [List.dropWhile_cons, hx, if_true, ne_eq] at h
        simp [List.takeWhile_cons, List.dropWhile_cons, hx, ih h]
      · simp [List.takeWhile_cons, List.dropWhile_cons, hx]

theorem exponentDigits_append {lead s e r : Bytes} (t : Bytes)
    (h : exponentDigits lead s = .ok (e, r)) (hr : r ≠ []) :
    exponentDigits lead (s ++ t) = .ok (e, r ++ t) := by
  cases s with
  | nil => cases h
  | cons d rest =>
      simp only [exponentDigits] at h ⊢
      split at h
      · simp only [Except.ok.injEq, Prod.mk.injEq] at h
        obtain ⟨rfl, rfl⟩ := h
        obtain ⟨h1, h2⟩ := takeWhile_dropWhile_append t hr
        simp [*]
      · cases h

theorem scanExponent_append {s e r : Bytes} (t : Bytes) (h : scanExponent s = .ok (e, r))
    (hr : r ≠ []) : scanExponent (s ++ t) = .ok (e, r ++ t) := by
  cases s with
  | nil =>
      cases h
      exact absurd rfl hr
  | cons c rest =>
      simp only [scanExponent, List.cons_append] at h ⊢
      split at h
      · rw [if_pos ‹_›]
        cases rest with
        | nil => cases h
        | cons s' rest' =>
            simp only [List.cons_append] at h ⊢
            split at h
            · rw [if_pos ‹_›]
              exact exponentDigits_append t h hr
            · rw [if_neg ‹_›]
              exact exponentDigits_append t h hr
      · rw [if_neg ‹_›]
        cases h
        rfl

theorem scanFraction_append {s f r : Bytes} (t : Bytes) (h : scanFraction s = .ok (f, r))
    (hr : r ≠ []) : scanFraction (s ++ t) = .ok (f, r ++ t) := by
  cases s with
  | nil =>
      cases h
      exact absurd rfl hr
  | cons c rest =>
      simp only [scanFraction, List.cons_append] at h ⊢
      split at h
      · rw [if_pos ‹_›]
        cases rest with
        | nil => cases h
        | cons d rest' =>
            simp only [List.cons_append] at h ⊢
            split at h
            · rw [if_pos ‹_›]
              have hne : rest'.dropWhile isDigit ≠ [] := by
                intro hnil
                rw [hnil] at h
                cases h
                exact hr rfl
              obtain ⟨h1, h2⟩ := takeWhile_dropWhile_append t hne
              rw [h1, h2]
              exact Except.prepend_shift h fun _ hs => scanExponent_append t hs hr
            · cases h
      · rw [if_neg ‹_›]
        exact scanExponent_append t h hr

theorem scanInteger_append {d : UInt8} {s lit r : Bytes} (t : Bytes)
    (h : scanInteger d s = .ok (lit, r)) (hr : r ≠ []) :
    scanInteger d (s ++ t) = .ok (lit, r ++ t) := by
  unfold scanInteger at h ⊢
  split at h
  · rw [if_pos ‹_›]
    exact Except.prepend_shift h fun _ hs => scanFraction_append t hs hr
  · rw [if_neg ‹_›]
    have hne : s.dropWhile isDigit ≠ [] := by
      intro hnil
      rw [hnil] at h
      cases h
      exact hr rfl
    obtain ⟨h1, h2⟩ := takeWhile_dropWhile_append t hne
    rw [h1, h2]
    exact Except.prepend_shift h fun _ hs => scanFraction_append t hs hr

theorem scanNumber_append {c : UInt8} {s lit r : Bytes} (t : Bytes)
    (h : scanNumber c s = .ok (lit, r)) (hr : r ≠ []) :
    scanNumber c (s ++ t) = .ok (lit, r ++ t) := by
  unfold scanNumber at h ⊢
  split at h
  · rw [if_pos ‹_›]
    cases s with
    | nil => cases h
    | cons d rest =>
        simp only [List.cons_append] at h ⊢
        split at h
        · rw [if_pos ‹_›]
          exact Except.prepend_shift h fun _ hs => scanInteger_append t hs hr
        · cases h
  · rw [if_neg ‹_›]
    exact scanInteger_append t h hr

/-- Numbers are the values whose end the scanner only sees by reading one byte past them. -/
def Value.isNumber : Value -> Bool
  | .number _ => true
  | _ => false

theorem withValue_eq_ok {f : Bytes -> Value} {x : Except ScanError (Bytes × Bytes)} {v : Value}
    {r : Bytes} (h : withValue f x = .ok (v, r)) : exists b, x = .ok (b, r) ∧ v = f b := by
  rcases x with e | ⟨b, r'⟩
  · cases h
  · cases h
    exact ⟨b, rfl, rfl⟩

theorem parseLiteral_append {word : String} {v w : Value} {s r : Bytes} (t : Bytes)
    (h : parseLiteral word v s = .ok (w, r)) : parseLiteral word v (s ++ t) = .ok (w, r ++ t) := by
  unfold parseLiteral at h ⊢
  rcases hl : expectLetters word ((ascii word).drop 1) s with e | r'
  · rw [hl] at h
    cases h
  · rw [hl] at h
    rw [expectLetters_append t hl]
    cases h
    rfl

theorem parseScalar_append {c : UInt8} {s r : Bytes} {v : Value} (t : Bytes)
    (h : parseScalar c s = .ok (v, r)) (hr : r ≠ [] ∨ v.isNumber = false) :
    parseScalar c (s ++ t) = .ok (v, r ++ t) := by
  unfold parseScalar at h ⊢
  split_ifs at h ⊢
  · obtain ⟨b, hb, rfl⟩ := withValue_eq_ok h
    rw [scanString_append t hb]
    rfl
  · obtain ⟨b, hb, rfl⟩ := withValue_eq_ok h
    rw [scanNumber_append t hb (hr.resolve_right (by simp [Value.isNumber]))]
    rfl
  all_goals exact parseLiteral_append t h

theorem parse_append (n : Nat) :
    (∀ {depth m : Nat} {s r : Bytes} {v : Value} (t : Bytes),
      parseValue n depth s = .ok (v, r) -> (r ≠ [] ∨ v.isNumber = false) -> n ≤ m ->
      parseValue m depth (s ++ t) = .ok (v, r ++ t)) ∧
    (∀ {depth m : Nat} {acc : List Value} {s r : Bytes} {v : Value} (t : Bytes),
      parseElements n depth acc s = .ok (v, r) -> n ≤ m ->
      parseElements m depth acc (s ++ t) = .ok (v, r ++ t)) ∧
    (∀ {depth m : Nat} {acc : List (Bytes × Value)} {s r : Bytes} {v : Value} (t : Bytes),
      parseMembers n depth acc s = .ok (v, r) -> n ≤ m ->
      parseMembers m depth acc (s ++ t) = .ok (v, r ++ t)) := by
  induction n with
  | zero =>
      refine ⟨?_, ?_, ?_⟩ <;> intros <;> simp_all [parseValue, parseElements, parseMembers]
  | succ n ih =>
      obtain ⟨ihv, ihe, ihm⟩ := ih
      refine ⟨fun t h hr hm => ?_, fun t h hm => ?_, fun t h hm => ?_⟩ <;>
        obtain ⟨k, rfl⟩ := Nat.exists_eq_add_of_lt hm
      · obtain ⟨c, rest, hs, ⟨hc, hd, d, rest', hs', hcases⟩ | ⟨h1, h2, hsc⟩⟩ := parseValue_eq_ok h
        · rcases hcases with ⟨rfl, ⟨rfl, rfl, rfl⟩ | ⟨hclose, hm'⟩⟩ | ⟨rfl, ⟨rfl, rfl, rfl⟩ | ⟨hclose, he⟩⟩
          · rw [parseValue_object (skipSpace_append t hs) hd (skipSpace_append t hs'), if_pos rfl]
          · rw [parseValue_object (skipSpace_append t hs) hd (skipSpace_append t hs'),
              if_neg hclose]
            exact ihm t hm' (by omega)
          · rw [parseValue_array (skipSpace_append t hs) hd (skipSpace_append t hs'), if_pos rfl]
          · rw [parseValue_array (skipSpace_append t hs) hd (skipSpace_append t hs'),
              if_neg hclose]
            exact ihe t he (by omega)
        · rw [parseValue_scalar (skipSpace_append t hs) h1 h2]
          exact parseScalar_append t hsc hr
      · obtain ⟨v', r', c, r'', hv, hs, hc⟩ := parseElements_eq_ok h
        have hne : r' ≠ [] := by
          rintro rfl
          cases hs
        rw [parseElements_succ (ihv t hv (.inl hne) (by omega)) (skipSpace_append t hs)]
        rcases hc with ⟨rfl, he⟩ | ⟨rfl, rfl, rfl⟩
        · exact ihe t he (by omega)
        · rfl
      · obtain ⟨rest, key, r1, r2, v', r3, c, r4, hs, hk, hs1, hv, hs3, hc⟩ := parseMembers_eq_ok h
        have hne : r3 ≠ [] := by
          rintro rfl
          cases hs3
        rw [parseMembers_succ (skipSpace_append t hs) (scanString_append t hk)
          (skipSpace_append t hs1) (ihv t hv (.inl hne) (by omega)) (skipSpace_append t hs3)]
        rcases hc with ⟨rfl, hm'⟩ | ⟨rfl, rfl, rfl⟩
        · exact ihm t hm' (by omega)
        · rfl

theorem readValue_append {s : Bytes} {v : Value} (t : Bytes) (h : readValue s = .ok v)
    (hv : v.isNumber = false) : readValue (s ++ t) = .ok v := by
  unfold readValue at h ⊢
  rcases hs : skipSpace s with _ | ⟨c, rest⟩
  · simp [hs] at h
  simp only [hs, skipSpace_append t hs] at h ⊢
  rcases hp : parseValue (2 * s.length + 1) 0 s with e | ⟨w, r⟩
  · rcases e <;> simp [hp] at h
  simp only [hp, Except.ok.injEq] at h
  subst h
  rw [(parse_append _).1 (m := 2 * (s ++ t).length + 1) t hp (Or.inr hv)
    (by simp only [List.length_append]; omega)]

end Json
end GoTuf
