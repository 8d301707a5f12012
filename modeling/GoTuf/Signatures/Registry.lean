import GoTuf.Signatures.Ecdsa
import GoTuf.Signatures.Ed25519
import Mathlib.Data.List.Nodup

/-!
# The algorithm registry

The package keeps a `sync.Map` from algorithm names to builders. Its `init` registers the three
algorithm instances under their own names; `GetAlgorithm` calls the builder stored under a
name, and `GetAlgorithms` lists the names. The map is modelled as the list of its entries, one
per name, which each `Store` replaces; `Range` visits them in an order Go leaves unspecified,
and the results below do not depend on it.
-/

namespace GoTuf
namespace Signatures

/-- A value of the `Algorithm` interface: one of its two implementations. -/
inductive Algorithm
  | ed25519 (m : ed25519Signer)
  | ecdsa (m : ecdsaSigner)
  deriving DecidableEq, Repr

namespace Algorithm

def Name : Algorithm -> String
  | .ed25519 _ => ed25519Signer.Name
  | .ecdsa m => m.Name

def Sign (c : Crypto) : Algorithm -> Bytes -> KeyValue -> List SignOption -> Outcome Bytes
  | .ed25519 _ => ed25519Signer.Sign c
  | .ecdsa m => m.Sign c

def Verify (c : Crypto) : Algorithm -> Bytes -> Bytes -> KeyValue -> Outcome Unit
  | .ed25519 _ => ed25519Signer.Verify c
  | .ecdsa m => m.Verify c

end Algorithm

def Builder : Type := Unit -> Option Algorithm

/-- The registry `sync.Map`, as its entries. -/
structure Registry where
  entries : List (String × Builder)

namespace Registry

def empty : Registry := ⟨[]⟩

def Load (r : Registry) (name : String) : Option Builder :=
  (r.entries.find? (·.1 == name)).map (·.2)

/-- `registry.Store(name, b)`, which replaces the entry of `name`. -/
def Store (r : Registry) (name : String) (b : Builder) : Registry :=
  ⟨r.entries.filter (·.1 != name) ++ [(name, b)]⟩

end Registry

def RegisterAlgorithm (name : String) (b : Builder) (r : Registry) : Registry :=
  r.Store name b

/-- `GetAlgorithm(name)`: the algorithm the stored builder returns, or `nil`. -/
def GetAlgorithm (name : String) (r : Registry) : Option Algorithm :=
  match r.Load name with
  | some b => b ()
  | none => none

/-- `GetAlgorithms()`: the registered names. -/
def GetAlgorithms (r : Registry) : List String :=
  r.entries.map (·.1)

def Ed25519 : Algorithm := .ed25519 {}

def ECDSA_P256_SHA256 : Algorithm :=
  .ecdsa { name := "ecdsa-sha2-nistp256", hash := .SHA256, keySize := 32, curveBits := 256 }

def ECDSA_P384_SHA384 : Algorithm :=
  .ecdsa { name := "ecdsa-sha384-nistp384", hash := .SHA384, keySize := 48, curveBits := 384 }

def registerSelf (r : Registry) (alg : Algorithm) : Registry :=
  RegisterAlgorithm alg.Name (fun _ => some alg) r

/-- The package's `init`. -/
def init (r : Registry) : Registry :=
  [Ed25519, ECDSA_P256_SHA256, ECDSA_P384_SHA384].foldl registerSelf r

/-- The registry once the package is initialised. -/
def registry : Registry := init .empty

/-!
## The map the registry stores

`Store` and `Load` behave as the update and the lookup of a partial map from names to builders.
-/

theorem Registry.Load_Store (r : Registry) (name : String) (b : Builder) :
    (r.Store name b).Load = Function.update r.Load name (some b) := by
  funext name'
  by_cases h : name' = name
  · subst h
    simp [Registry.Load, Registry.Store]
  · have hp : ∀ a : String × Builder,
        decide ((a.1 != name) = true ∧ (a.1 == name') = true) = (a.1 == name') := by
      intro a
      by_cases ha : a.1 = name' <;> simp [ha, h]
    simp only [Registry.Load, Registry.Store, List.find?_append, List.find?_filter, hp,
      Function.update_noteq h]
    simp [Ne.symm h]

theorem Registry.nodup_Store {r : Registry} (hr : (r.entries.map (·.1)).Nodup) (name : String)
    (b : Builder) : ((r.Store name b).entries.map (·.1)).Nodup := by
  have hsub : ((r.entries.filter (·.1 != name)).map (·.1)).Nodup :=
    hr.sublist ((List.filter_sublist _).map _)
  simp only [Registry.Store, List.map_append, List.map_cons, List.map_nil, List.nodup_append, hsub,
    List.nodup_singleton, true_and, List.disjoint_singleton, List.mem_map, List.mem_filter,
    not_exists, not_and]
  intro e ⟨_, hne⟩ heq
  simp [heq] at hne

/-- `RegisterAlgorithm` sets the builder of its name, which `GetAlgorithm` then calls, lists the
name, and leaves every other name as it was. -/
theorem RegisterAlgorithm_spec (name : String) (b : Builder) (r : Registry) :
    (∀ name', GetAlgorithm name' (RegisterAlgorithm name b r) =
      if name' = name then b () else GetAlgorithm name' r) ∧
    (∀ name', name' ∈ GetAlgorithms (RegisterAlgorithm name b r) ↔
      name' = name ∨ name' ∈ GetAlgorithms r) := by
  refine ⟨fun name' => ?_, fun name' => ?_⟩ <;> by_cases h : name' = name
  · simp [GetAlgorithm, RegisterAlgorithm, Registry.Load_Store, h]
  · simp [GetAlgorithm, RegisterAlgorithm, Registry.Load_Store, h, Function.update_noteq h]
  all_goals simp [GetAlgorithms, RegisterAlgorithm, Registry.Store, h]

/-!
## Registrations in any order

`RegisterAlgorithm` may be called from the `init` of several packages, whose stores reach the
`sync.Map` in an order the program does not fix. Registrations of distinct names commute.
-/

def registerAll (r : Registry) (l : List (String × Builder)) : Registry :=
  l.foldl (fun r p => RegisterAlgorithm p.1 p.2 r) r

theorem Load_registerAll (r : Registry) (l : List (String × Builder)) :
    (registerAll r l).Load = l.foldl (fun (f : String -> Option Builder) p => Function.update f p.1 (some p.2)) r.Load := by
  induction l generalizing r with
  | nil => rfl
  | cons p l ih =>
      show (registerAll (RegisterAlgorithm p.1 p.2 r) l).Load = _
      rw [ih, RegisterAlgorithm, Registry.Load_Store]
      rfl

theorem mem_GetAlgorithms_registerAll (r : Registry) (l : List (String × Builder)) (name : String) :
    name ∈ GetAlgorithms (registerAll r l) ↔ name ∈ l.map (·.1) ∨ name ∈ GetAlgorithms r := by
  induction l generalizing r with
  | nil => simp [registerAll]
  | cons p l ih =>
      rw [registerAll, List.foldl_cons, ← registerAll, ih, (RegisterAlgorithm_spec _ _ _).2]
      simp only [List.map_cons, List.mem_cons]
      tauto

/-- Registrations of distinct names may take effect in any order: every order leaves the same
map, so `GetAlgorithm` resolves every name alike, and `GetAlgorithms` lists the same names. -/
theorem registerAll_perm {l l' : List (String × Builder)} (hp : l.Perm l')
    (hnd : (l.map (·.1)).Nodup) (r : Registry) :
    (∀ name, GetAlgorithm name (registerAll r l) = GetAlgorithm name (registerAll r l')) ∧
      (∀ name, name ∈ GetAlgorithms (registerAll r l) ↔ name ∈ GetAlgorithms (registerAll r l')) := by
  have hload : (registerAll r l).Load = (registerAll r l').Load := by
    rw [Load_registerAll, Load_registerAll]
    refine hp.foldl_eq' (fun x hx y hy f => ?_) _
    by_cases hxy : x.1 = y.1
    · rw [List.inj_on_of_nodup_map hnd hx hy hxy]
    · exact Function.update_comm hxy _ _ f
  refine ⟨fun name => by simp only [GetAlgorithm, hload], fun name => ?_⟩
  rw [mem_GetAlgorithms_registerAll, mem_GetAlgorithms_registerAll, (hp.map _).mem_iff]

def initRegistrations : List (String × Builder) :=
  [Ed25519, ECDSA_P256_SHA256, ECDSA_P384_SHA384].map fun alg => (alg.Name, fun _ => some alg)

theorem init_eq_registerAll (r : Registry) : init r = registerAll r initRegistrations := rfl

theorem registerAll_perm_init_reverse :
    (∀ name, GetAlgorithm name (registerAll .empty initRegistrations) =
        GetAlgorithm name (registerAll .empty initRegistrations.reverse)) ∧
      (∀ name, name ∈ GetAlgorithms (registerAll .empty initRegistrations) ↔
        name ∈ GetAlgorithms (registerAll .empty initRegistrations.reverse)) :=
  registerAll_perm (List.reverse_perm _).symm (by decide) _

/-- Whatever sequence of registrations runs, names registered more than once included,
`GetAlgorithms` lists each registered name exactly once. -/
theorem GetAlgorithms_registerAll_nodup {r : Registry} (hr : (GetAlgorithms r).Nodup)
    (l : List (String × Builder)) : (GetAlgorithms (registerAll r l)).Nodup := by
  induction l generalizing r with
  | nil => exact hr
  | cons p l ih => exact ih (Registry.nodup_Store hr p.1 p.2)

theorem GetAlgorithms_registerAll_nodup_twice :
    (GetAlgorithms (registerAll .empty (initRegistrations ++ initRegistrations))).Nodup :=
  GetAlgorithms_registerAll_nodup (r := .empty) List.nodup_nil _

/-!
## Every registered name resolves to an algorithm of that name

The invariant of the registry under self-registration: names are stored once, and each stored
builder returns an algorithm whose `Name()` is the name it is stored under.
-/

/-- The invariant of registries built by `registerSelf`. -/
def Registry.SelfNamed (r : Registry) : Prop :=
  (r.entries.map (·.1)).Nodup ∧
    ∀ e ∈ r.entries, ∃ alg, e.2 () = some alg ∧ alg.Name = e.1

theorem Registry.SelfNamed_empty : Registry.empty.SelfNamed := by
  simp [Registry.SelfNamed, Registry.empty]

theorem registerSelf_SelfNamed {r : Registry} (hr : r.SelfNamed) (alg : Algorithm) :
    (registerSelf r alg).SelfNamed := by
  obtain ⟨hnd, hnamed⟩ := hr
  refine ⟨Registry.nodup_Store hnd _ _, fun e he => ?_⟩
  simp only [registerSelf, RegisterAlgorithm, Registry.Store, List.mem_append, List.mem_filter,
    List.mem_singleton] at he
  rcases he with ⟨he, -⟩ | rfl
  · exact hnamed e he
  · exact ⟨alg, rfl, rfl⟩

theorem foldl_registerSelf_SelfNamed (algs : List Algorithm) {r : Registry} (hr : r.SelfNamed) :
    (algs.foldl registerSelf r).SelfNamed := by
  induction algs generalizing r with
  | nil => exact hr
  | cons alg algs ih => exact ih (registerSelf_SelfNamed hr alg)

theorem registry_SelfNamed : registry.SelfNamed :=
  foldl_registerSelf_SelfNamed _ Registry.SelfNamed_empty

theorem GetAlgorithm_eq_some {r : Registry} {name : String} {alg : Algorithm}
    (h : GetAlgorithm name r = some alg) : ∃ e ∈ r.entries, e.1 = name ∧ e.2 () = some alg := by
  unfold GetAlgorithm Registry.Load at h
  split at h
  · rename_i b hb
    obtain ⟨e, he, rfl⟩ := Option.map_eq_some'.mp hb
    have hname := List.find?_some he
    simp only [beq_iff_eq] at hname
    exact ⟨e, List.mem_of_find?_eq_some he, hname, h⟩
  · cases h

example : GetAlgorithms registry = ["ed25519", "ecdsa-sha2-nistp256", "ecdsa-sha384-nistp384"] := by
  decide

theorem GetAlgorithm_registry_ed25519 : GetAlgorithm "ed25519" registry = some Ed25519 := rfl

theorem GetAlgorithm_registry_p256 :
    GetAlgorithm "ecdsa-sha2-nistp256" registry = some ECDSA_P256_SHA256 := rfl

theorem GetAlgorithm_registry_eq_some {name : String} {alg : Algorithm}
    (h : GetAlgorithm name registry = some alg) :
    alg = Ed25519 ∨ alg = ECDSA_P256_SHA256 ∨ alg = ECDSA_P384_SHA384 := by
  have hentries : registry.entries = [("ed25519", fun _ => some Ed25519),
      ("ecdsa-sha2-nistp256", fun _ => some ECDSA_P256_SHA256),
      ("ecdsa-sha384-nistp384", fun _ => some ECDSA_P384_SHA384)] := rfl
  obtain ⟨e, he, -, hb⟩ := GetAlgorithm_eq_some h
  rw [hentries] at he
  simp only [List.mem_cons, List.mem_singleton, List.not_mem_nil, or_false] at he
  rcases he with rfl | rfl | rfl <;> simp_all

end Signatures
end GoTuf
