import GoTuf.Encoding.Json.Append

/-!
# The nesting limit

The scanner refuses to open an array or an object more than `maxNestingDepth` levels deep, with
`exceeded max depth`. The depth is an argument the reader carries down its recursion, and this
module proves the bound it keeps: no value the reader returns nests deeper than the limit.
-/

namespace GoTuf
namespace Json

/-- The value nests arrays and objects at most `n` deep. -/
def Value.withinDepth : Nat -> Value -> Bool
  | 0, .array _ => false
  | 0, .object _ => false
  | 0, _ => true
  | n + 1, .array es => es.all (withinDepth n)
  | n + 1, .object ms => ms.all fun m => withinDepth n m.2
  | _ + 1, _ => true

@[simp] theorem Value.withinDepth_array (n : Nat) (es : List Value) :
    (Value.array es).withinDepth (n + 1) = es.all (Value.withinDepth n) := rfl

@[simp] theorem Value.withinDepth_object (n : Nat) (ms : List (Bytes × Value)) :
    (Value.object ms).withinDepth (n + 1) = ms.all fun m => m.2.withinDepth n := rfl

theorem parseScalar_value {c : UInt8} {s r : Bytes} {v : Value}
    (h : parseScalar c s = .ok (v, r)) :
    (∃ b, v = .string b ∧ scanString none s = .ok (b, r)) ∨
      (∃ b, v = .number b ∧ (c = 45 ∨ isDigit c = true) ∧ scanNumber c s = .ok (b, r)) ∨
      v = .bool true ∨ v = .bool false ∨ v = .null := by
  have hlit : ∀ word w, parseLiteral word w s = .ok (v, r) -> v = w := by
    intro word w hw
    unfold parseLiteral at hw
    split at hw <;> cases hw
    rfl
  rw [parseScalar] at h
  by_cases h1 : c = 34
  · rw [if_pos h1] at h
    obtain ⟨b, hb, rfl⟩ := withValue_eq_ok h
    exact .inl ⟨b, rfl, hb⟩
  rw [if_neg h1] at h
  by_cases h2 : c = 45 ∨ isDigit c = true
  · rw [if_pos h2] at h
    obtain ⟨b, hb, rfl⟩ := withValue_eq_ok h
    exact .inr (.inl ⟨b, rfl, h2, hb⟩)
  rw [if_neg h2] at h
  by_cases h3 : c = 116
  · rw [if_pos h3] at h
    exact .inr (.inr (.inl (hlit _ _ h)))
  rw [if_neg h3] at h
  by_cases h4 : c = 102
  · rw [if_pos h4] at h
    exact .inr (.inr (.inr (.inl (hlit _ _ h))))
  rw [if_neg h4] at h
  by_cases h5 : c = 110
  · rw [if_pos h5] at h
    exact .inr (.inr (.inr (.inr (hlit _ _ h))))
  rw [if_neg h5] at h
  cases h

theorem parseScalar_withinDepth {c : UInt8} {s r : Bytes} {v : Value}
    (h : parseScalar c s = .ok (v, r)) (n : Nat) : v.withinDepth n = true := by
  rcases parseScalar_value h with ⟨b, rfl, -⟩ | ⟨b, rfl, -⟩ | rfl | rfl | rfl <;> cases n <;> rfl

variable {n depth : Nat} {s r : Bytes} {v : Value}

theorem parse_withinDepth (n : Nat) :
    (∀ {depth s r v}, parseValue n depth s = .ok (v, r) -> depth ≤ maxNestingDepth ->
      v.withinDepth (maxNestingDepth - depth) = true) ∧
    (∀ {depth acc s r v}, parseElements n depth acc s = .ok (v, r) -> depth ≤ maxNestingDepth ->
      (∀ e ∈ acc, e.withinDepth (maxNestingDepth - depth) = true) ->
      v.withinDepth (maxNestingDepth - depth + 1) = true) ∧
    (∀ {depth acc s r v}, parseMembers n depth acc s = .ok (v, r) -> depth ≤ maxNestingDepth ->
      (∀ m ∈ acc, m.2.withinDepth (maxNestingDepth - depth) = true) ->
      v.withinDepth (maxNestingDepth - depth + 1) = true) := by
  induction n with
  | zero => refine ⟨?_, ?_, ?_⟩ <;> intros <;> simp_all [parseValue, parseElements, parseMembers]
  | succ n ih =>
      obtain ⟨ihv, ihe, ihm⟩ := ih
      refine ⟨fun {depth _ _ _} h hd => ?_, fun h hd hacc => ?_, fun h hd hacc => ?_⟩
      · obtain ⟨c, rest, -, ⟨-, hd', d, rest', -, hcases⟩ | ⟨-, -, hsc⟩⟩ := parseValue_eq_ok h
        · have hk : maxNestingDepth - depth = maxNestingDepth - (depth + 1) + 1 := by omega
          rw [hk]
          rcases hcases with ⟨-, ⟨-, rfl, -⟩ | ⟨-, hm⟩⟩ | ⟨-, ⟨-, rfl, -⟩ | ⟨-, he⟩⟩
          · rfl
          · exact ihm hm hd' nofun
          · rfl
          · exact ihe he hd' nofun
        · exact parseScalar_withinDepth hsc _
      · obtain ⟨v', r', c, r'', hv, -, ⟨-, he⟩ | ⟨-, rfl, -⟩⟩ := parseElements_eq_ok h
        · exact ihe he hd fun e he' => by
            rcases List.mem_append.mp he' with he' | he'
            · exact hacc e he'
            · rw [List.mem_singleton.mp he']
              exact ihv hv hd
        · simp only [Value.withinDepth_array, List.all_append, List.all_cons, List.all_nil,
            Bool.and_true, Bool.and_eq_true, List.all_eq_true]
          exact ⟨hacc, ihv hv hd⟩
      · obtain ⟨rest, key, r1, r2, v', r3, c, r4, -, -, -, hv, -, ⟨-, hm⟩ | ⟨-, rfl, -⟩⟩ :=
          parseMembers_eq_ok h
        · exact ihm hm hd fun m hm' => by
            rcases List.mem_append.mp hm' with hm' | hm'
            · exact hacc m hm'
            · rw [List.mem_singleton.mp hm']
              exact ihv hv hd
        · simp only [Value.withinDepth_object, List.all_append, List.all_cons, List.all_nil,
            Bool.and_true, Bool.and_eq_true, List.all_eq_true]
          exact ⟨hacc, ihv hv hd⟩

/-- No value that `Decode` reads nests arrays and objects more than `maxNestingDepth` deep. -/
theorem readValue_withinDepth {s : Bytes} {v : Value} (h : readValue s = .ok v) :
    v.withinDepth maxNestingDepth = true := by
  unfold readValue at h
  split at h
  · cases h
  split at h
  · cases h
    exact (parse_withinDepth _).1 ‹_› (Nat.zero_le _)
  all_goals cases h

theorem readValue_withinDepth_nested :
    (Value.array [.array []]).withinDepth maxNestingDepth = true :=
  readValue_withinDepth (s := ascii "[[]]") rfl

end Json
end GoTuf
