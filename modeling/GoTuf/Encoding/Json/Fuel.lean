import GoTuf.Encoding.Json.Append

/-!
# Enough fuel

Every call the reader makes either consumes a byte first or is one of the array and object
loops, which consume a whole element before calling themselves again. Two units of fuel per byte
are therefore never used up.
-/

namespace GoTuf
namespace Json

theorem readHex_ne_outOfFuel (k acc : Nat) (s : Bytes) : readHex k acc s ≠ .error .outOfFuel := by
  induction k generalizing acc s with
  | zero => simp [readHex]
  | succ k ih =>
      cases s with
      | nil => simp [readHex]
      | cons c rest =>
          simp only [readHex]
          split
          · exact ih _ _
          · simp

theorem Except.prepend_ne_outOfFuel {bs : Bytes} {x : Except ScanError (Bytes × Bytes)}
    (h : x ≠ .error .outOfFuel) : Except.prepend bs x ≠ .error .outOfFuel := by
  rcases x with e | ⟨s, r⟩
  · simpa [Except.prepend] using h
  · simp [Except.prepend]

theorem scanRunes_ne_outOfFuel (k : Nat) (high : Option Nat) (s : Bytes) :
    scanRunes k high s ≠ .error .outOfFuel := by
  induction k, high, s using scanRunes.induct with
  | case5 high h1 h2 h3 h4 more err hr =>
      rw [scanRunes.eq_def]
      simpa [hr] using readHex_ne_outOfFuel 4 0 [h1, h2, h3, h4]
  | case6 high h1 h2 h3 h4 more r hr v hv _ ih | case7 high h1 h2 h3 h4 more r hr v hv _ ih
  | case8 high h1 h2 h3 h4 more r hr v hv _ ih =>
      rw [scanRunes.eq_def]
      simp only [hr, hv, *, if_true, if_false, ne_eq, show (92 : UInt8) ≠ 34 by decide,
        show (92 : UInt8) = 92 from rfl, show (117 : UInt8) = 117 from rfl]
      exact Except.prepend_ne_outOfFuel ih
  | case9 high short hshort err hr =>
      rw [scanRunes.eq_def]
      simp only [if_false, if_true, show (92 : UInt8) ≠ 34 by decide]
      have := readHex_ne_outOfFuel 4 0 short
      split <;> simp_all
  | case2 _ _ _ _ ih | case11 _ _ _ _ _ _ _ ih | case14 _ _ _ _ _ _ _ ih
  | case15 _ _ _ _ _ _ _ _ ih | case16 _ _ _ _ _ _ _ _ _ ih =>
      rw [scanRunes.eq_def]
      simp only [*, if_true, if_false]
      exact Except.prepend_ne_outOfFuel ih
  | _ =>
      rw [scanRunes.eq_def]
      simp_all

theorem scanString_ne_outOfFuel (high : Option Nat) (s : Bytes) :
    scanString high s ≠ .error .outOfFuel :=
  scanRunes_ne_outOfFuel 0 high s

/-!
## Each number scanner leaves a suffix and never runs out of fuel
-/

theorem exponentDigits_suffix {lead s e r : Bytes} (h : exponentDigits lead s = .ok (e, r)) :
    r <:+ s := by
  cases s with
  | nil => cases h
  | cons d rest =>
      simp only [exponentDigits] at h
      split at h
      · cases h
        exact (List.dropWhile_suffix _).trans (List.suffix_cons _ _)
      · cases h

theorem exponentDigits_ne_outOfFuel (lead s : Bytes) :
    exponentDigits lead s ≠ .error .outOfFuel := by
  cases s with
  | nil => simp [exponentDigits]
  | cons d rest =>
      simp only [exponentDigits]
      split <;> simp

theorem scanExponent_suffix {s e r : Bytes} (h : scanExponent s = .ok (e, r)) : r <:+ s := by
  cases s with
  | nil =>
      cases h
      exact List.suffix_refl _
  | cons c rest =>
      simp only [scanExponent] at h
      split at h
      · cases rest with
        | nil => cases h
        | cons s' rest' =>
            simp only at h
            split at h
            · exact (exponentDigits_suffix h).trans
                ((List.suffix_cons _ _).trans (List.suffix_cons _ _))
            · exact (exponentDigits_suffix h).trans (List.suffix_cons _ _)
      · cases h
        exact List.suffix_refl _

theorem scanExponent_ne_outOfFuel (s : Bytes) : scanExponent s ≠ .error .outOfFuel := by
  cases s with
  | nil => simp [scanExponent]
  | cons c rest =>
      simp only [scanExponent]
      split
      · cases rest with
        | nil => simp
        | cons s' rest' =>
            simp only
            split <;> exact exponentDigits_ne_outOfFuel _ _
      · simp

theorem scanFraction_suffix {s f r : Bytes} (h : scanFraction s = .ok (f, r)) : r <:+ s := by
  cases s with
  | nil =>
      cases h
      exact List.suffix_refl _
  | cons c rest =>
      simp only [scanFraction] at h
      split at h
      · cases rest with
        | nil => cases h
        | cons d rest' =>
            simp only at h
            split at h
            · obtain ⟨_, hx, -⟩ := Except.exists_of_prepend_eq_ok h
              exact (scanExponent_suffix hx).trans ((List.dropWhile_suffix _).trans
                ((List.suffix_cons _ _).trans (List.suffix_cons _ _)))
            · cases h
      · exact scanExponent_suffix h

theorem scanFraction_ne_outOfFuel (s : Bytes) : scanFraction s ≠ .error .outOfFuel := by
  cases s with
  | nil => simp [scanFraction]
  | cons c rest =>
      simp only [scanFraction]
      split
      · cases rest with
        | nil => simp
        | cons d rest' =>
            simp only
            split
            · exact Except.prepend_ne_outOfFuel (scanExponent_ne_outOfFuel _)
            · simp
      · exact scanExponent_ne_outOfFuel _

theorem scanInteger_suffix {d : UInt8} {s l r : Bytes} (h : scanInteger d s = .ok (l, r)) :
    r <:+ s := by
  unfold scanInteger at h
  split at h
  · obtain ⟨_, hx, -⟩ := Except.exists_of_prepend_eq_ok h
    exact scanFraction_suffix hx
  · obtain ⟨_, hx, -⟩ := Except.exists_of_prepend_eq_ok h
    exact (scanFraction_suffix hx).trans (List.dropWhile_suffix _)

theorem scanInteger_ne_outOfFuel (d : UInt8) (s : Bytes) :
    scanInteger d s ≠ .error .outOfFuel := by
  unfold scanInteger
  split <;> exact Except.prepend_ne_outOfFuel (scanFraction_ne_outOfFuel _)

theorem scanNumber_suffix {c : UInt8} {s lit r : Bytes} (h : scanNumber c s = .ok (lit, r)) :
    r <:+ s := by
  unfold scanNumber at h
  split at h
  · cases s with
    | nil => cases h
    | cons d rest =>
        simp only at h
        split at h
        · obtain ⟨_, hx, -⟩ := Except.exists_of_prepend_eq_ok h
          exact (scanInteger_suffix hx).trans (List.suffix_cons _ _)
        · cases h
  · exact scanInteger_suffix h

theorem scanNumber_ne_outOfFuel (c : UInt8) (s : Bytes) :
    scanNumber c s ≠ .error .outOfFuel := by
  unfold scanNumber
  split
  · cases s with
    | nil => simp
    | cons d rest =>
        simp only
        split
        · exact Except.prepend_ne_outOfFuel (scanInteger_ne_outOfFuel _ _)
        · simp
  · exact scanInteger_ne_outOfFuel _ _

/-!
## The reader
-/

theorem parseScalar_suffix {c : UInt8} {s r : Bytes} {v : Value}
    (h : parseScalar c s = .ok (v, r)) : r <:+ s := by
  unfold parseScalar at h
  split_ifs at h
  · obtain ⟨_, hb, -⟩ := withValue_eq_ok h
    exact scanString_suffix hb
  · obtain ⟨_, hb, -⟩ := withValue_eq_ok h
    exact scanNumber_suffix hb
  all_goals
    unfold parseLiteral at h
    split at h
    · cases h
      exact expectLetters_suffix ‹_›
    · cases h

theorem expectLetters_ne_outOfFuel (word : String) (ws s : Bytes) :
    expectLetters word ws s ≠ .error .outOfFuel := by
  induction ws generalizing s with
  | nil => simp [expectLetters]
  | cons w ws ih =>
      cases s with
      | nil => simp [expectLetters]
      | cons d rest =>
          simp only [expectLetters]
          split
          · exact ih rest
          · simp

theorem parseScalar_ne_outOfFuel (c : UInt8) (s : Bytes) :
    parseScalar c s ≠ .error .outOfFuel := by
  have hlit : ∀ word v, parseLiteral word v s ≠ .error .outOfFuel := by
    intro word v
    have := expectLetters_ne_outOfFuel word ((ascii word).drop 1) s
    unfold parseLiteral
    split <;> simp_all
  unfold parseScalar withValue
  have := scanString_ne_outOfFuel none s
  have := scanNumber_ne_outOfFuel c s
  split_ifs
  · split <;> simp_all
  · split <;> simp_all
  all_goals first | exact hlit _ _ | simp

theorem length_skipSpace_cons {s rest : Bytes} {c : UInt8} (h : skipSpace s = c :: rest) :
    rest.length < s.length := by
  have := (skipSpace_suffix s).length_le
  rw [h, List.length_cons] at this
  omega

theorem parse_length (n : Nat) :
    (∀ {depth : Nat} {s r : Bytes} {v : Value},
      parseValue n depth s = .ok (v, r) -> r.length < s.length) ∧
    (∀ {depth : Nat} {acc : List Value} {s r : Bytes} {v : Value},
      parseElements n depth acc s = .ok (v, r) -> r.length < s.length) ∧
    (∀ {depth : Nat} {acc : List (Bytes × Value)} {s r : Bytes} {v : Value},
      parseMembers n depth acc s = .ok (v, r) -> r.length < s.length) := by
  induction n with
  | zero => refine ⟨?_, ?_, ?_⟩ <;> intros <;> simp_all [parseValue, parseElements, parseMembers]
  | succ n ih =>
      obtain ⟨ihv, ihe, ihm⟩ := ih
      refine ⟨fun h => ?_, fun h => ?_, fun h => ?_⟩
      · obtain ⟨c, rest, hs, ⟨-, -, d, rest', hs', hcases⟩ | ⟨-, -, hsc⟩⟩ := parseValue_eq_ok h
        · have h1 := length_skipSpace_cons hs
          have h2 := length_skipSpace_cons hs'
          rcases hcases with ⟨-, ⟨-, -, rfl⟩ | ⟨-, hm⟩⟩ | ⟨-, ⟨-, -, rfl⟩ | ⟨-, he⟩⟩
          · omega
          · have := ihm hm
            simp only [List.length_cons] at this
            omega
          · omega
          · have := ihe he
            simp only [List.length_cons] at this
            omega
        · have := (parseScalar_suffix hsc).length_le
          have := length_skipSpace_cons hs
          omega
      · obtain ⟨v', r', c, r'', hv, hs, hc⟩ := parseElements_eq_ok h
        have h1 := ihv hv
        have h2 := length_skipSpace_cons hs
        rcases hc with ⟨-, he⟩ | ⟨-, -, rfl⟩
        · have := ihe he
          omega
        · omega
      · obtain ⟨rest, key, r1, r2, v', r3, c, r4, hs, hk, hs1, hv, hs3, hc⟩ := parseMembers_eq_ok h
        have h1 := length_skipSpace_cons hs
        have h2 := (scanString_suffix hk).length_le
        have h3 := length_skipSpace_cons hs1
        have h4 := ihv hv
        have h5 := length_skipSpace_cons hs3
        rcases hc with ⟨-, hm⟩ | ⟨-, -, rfl⟩
        · have := ihm hm
          omega
        · omega

section OutOfFuel

variable {n depth : Nat} {s : Bytes}

theorem parseValue_eq_outOfFuel (h : parseValue (n + 1) depth s = .error .outOfFuel) :
    ∃ c rest, skipSpace s = c :: rest ∧ (parseScalar c rest = .error .outOfFuel ∨
      ∃ d rest', skipSpace rest = d :: rest' ∧
        (parseMembers n (depth + 1) [] (d :: rest') = .error .outOfFuel ∨
          parseElements n (depth + 1) [] (d :: rest') = .error .outOfFuel)) := by
  simp only [parseValue] at h
  split at h
  · cases h
  rename_i c rest hs
  refine ⟨c, rest, hs, ?_⟩
  split_ifs at h
  any_goals cases h
  all_goals first
    | exact .inl h
    | split at h
      · cases h
      rename_i d rest' hs'
      split_ifs at h
      first | exact .inr ⟨d, rest', hs', .inl h⟩ | exact .inr ⟨d, rest', hs', .inr h⟩

theorem parseElements_eq_outOfFuel {acc : List Value}
    (h : parseElements (n + 1) depth acc s = .error .outOfFuel) :
    parseValue n depth s = .error .outOfFuel ∨ ∃ v' r' r'', parseValue n depth s = .ok (v', r') ∧
      skipSpace r' = 44 :: r'' ∧ parseElements n depth (acc ++ [v']) r'' = .error .outOfFuel := by
  simp only [parseElements] at h
  split at h
  · cases h
    exact .inl ‹_›
  rename_i v' r' hv
  split at h
  · cases h
  rename_i c r'' hs
  split_ifs at h with hcomma
  · exact .inr ⟨v', r', r'', hv, hcomma ▸ hs, h⟩
  all_goals cases h

theorem parseMembers_eq_outOfFuel {acc : List (Bytes × Value)}
    (h : parseMembers (n + 1) depth acc s = .error .outOfFuel) :
    ∃ rest, skipSpace s = 34 :: rest ∧ (scanString none rest = .error .outOfFuel ∨
      ∃ key r1 r2, scanString none rest = .ok (key, r1) ∧ skipSpace r1 = 58 :: r2 ∧
        (parseValue n depth r2 = .error .outOfFuel ∨ ∃ v' r3 r4,
          parseValue n depth r2 = .ok (v', r3) ∧ skipSpace r3 = 44 :: r4 ∧
          parseMembers n depth (acc ++ [(key, v')]) r4 = .error .outOfFuel)) := by
  simp only [parseMembers, ne_eq, ite_not] at h
  split at h
  · cases h
  rename_i c0 rest hs
  split_ifs at h with hquote
  subst hquote
  refine ⟨rest, hs, ?_⟩
  split at h
  · cases h
    exact .inl ‹_›
  rename_i key r1 hk
  split at h
  · cases h
  rename_i c1 r2 hs1
  split_ifs at h with hcolon
  subst hcolon
  refine .inr ⟨key, r1, r2, hk, hs1, ?_⟩
  split at h
  · cases h
    exact .inl ‹_›
  rename_i v' r3 hv
  split at h
  · cases h
  rename_i c r4 hs3
  split_ifs at h with hcomma
  · exact .inr ⟨v', r3, r4, hv, hcomma ▸ hs3, h⟩
  all_goals cases h

end OutOfFuel

theorem parse_ne_outOfFuel (n : Nat) :
    (∀ {d : Nat} {s : Bytes}, 2 * s.length < n -> parseValue n d s ≠ .error .outOfFuel) ∧
    (∀ {depth : Nat} {acc : List Value} {s : Bytes}, 2 * s.length + 2 ≤ n ->
      parseElements n depth acc s ≠ .error .outOfFuel) ∧
    (∀ {depth : Nat} {acc : List (Bytes × Value)} {s : Bytes}, 2 * s.length + 2 ≤ n ->
      parseMembers n depth acc s ≠ .error .outOfFuel) := by
  induction n with
  | zero => refine ⟨?_, ?_, ?_⟩ <;> intros <;> omega
  | succ n ih =>
      obtain ⟨ihv, ihe, ihm⟩ := ih
      refine ⟨fun hn h => ?_, fun hn h => ?_, fun hn h => ?_⟩
      · obtain ⟨c, rest, hs, hsc | ⟨d, rest', hs', hm | he⟩⟩ := parseValue_eq_outOfFuel h
        · exact parseScalar_ne_outOfFuel c rest hsc
        all_goals
          have h1 := length_skipSpace_cons hs
          have h2 := length_skipSpace_cons hs'
        · exact ihm (by simp only [List.length_cons]; omega) hm
        · exact ihe (by simp only [List.length_cons]; omega) he
      · rcases parseElements_eq_outOfFuel h with hv | ⟨v', r', r'', hv, hs, he⟩
        · exact ihv (by omega) hv
        · have h1 := (parse_length n).1 hv
          have h2 := length_skipSpace_cons hs
          exact ihe (by omega) he
      · obtain ⟨rest, hs, hk | ⟨key, r1, r2, hk, hs1, hv | ⟨v', r3, r4, hv, hs3, hm⟩⟩⟩ :=
          parseMembers_eq_outOfFuel h
        · exact scanString_ne_outOfFuel none rest hk
        all_goals
          have h1 := length_skipSpace_cons hs
          have h2 := (scanString_suffix hk).length_le
          have h3 := length_skipSpace_cons hs1
        · exact ihv (by omega) hv
        · have h4 := (parse_length n).1 hv
          have h5 := length_skipSpace_cons hs3
          exact ihm (by omega) hm

theorem readValue_ne_outOfFuel (s : Bytes) : readValue s ≠ .error .outOfFuel := by
  have := (parse_ne_outOfFuel (2 * s.length + 1)).1 (d := 0) (s := s) (by omega)
  unfold readValue
  split
  · simp
  split <;> simp_all

end Json
end GoTuf
