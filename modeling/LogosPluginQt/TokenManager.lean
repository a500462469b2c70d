import Mathlib.Logic.Function.Basic
import Mathlib.Data.List.Basic

namespace LogosPluginQt
set_option autoImplicit true

abbrev Identity := String
abbrev Key := String

/-- A token as `QString` holds it: the empty string is "no token". -/
abbrev Token := String

/-- The store a `LogosAPI` points at: the ambient ring `TokenManager::instance()`, the
private store of an isolated identity, or one a host constructed itself. -/
inductive StoreRef where
  | ring
  | isolated (identity : Identity)
  | explicit (n : Nat)
deriving DecidableEq

/-- The token stores of logos-protocol, as this repository calls them. Their code is not
here; the fields after the operations are what it documents about them. -/
structure TokenManager (σ : Type) where
  bootstrapKeys : List Key
  isIsolated : σ → Identity → Bool
  getToken : σ → StoreRef → Key → Token
  /-- The host's own credential, which no isolated store may be given. -/
  hostAnchor : σ → Token
  isolateIdentity : σ → Identity → Bool × σ
  adoptCredentialFor : σ → Identity → Token → Bool × σ
  resetIdentity : σ → Identity → σ
  adoptCredential : σ → StoreRef → Token → σ
  saveToken : σ → StoreRef → Key → Token → σ
  bootstrapKeys_ne : bootstrapKeys ≠ []
  absent_store : ∀ {s i}, isIsolated s i = false → ∀ k, getToken s (.isolated i) k = ""
  isolate_again : ∀ {s i}, isIsolated s i = true → isolateIdentity s i = (true, s)
  isolate_refused : ∀ {s i}, (isolateIdentity s i).1 = false → (isolateIdentity s i).2 = s
  isolate_isolated : ∀ {s i}, (isolateIdentity s i).1 = true →
    ∀ j, isIsolated (isolateIdentity s i).2 j = (isIsolated s j || decide (j = i))
  isolate_anchor : ∀ s i, hostAnchor (isolateIdentity s i).2 = hostAnchor s
  isolate_token : ∀ s i r k, getToken (isolateIdentity s i).2 r k = getToken s r k
  adoptFor_answer : ∀ s i c,
    (adoptCredentialFor s i c).1 = (isIsolated s i && decide (c ≠ hostAnchor s))
  adoptFor_refused : ∀ {s i c}, (adoptCredentialFor s i c).1 = false →
    (adoptCredentialFor s i c).2 = s
  adoptFor_isolated : ∀ s i c j,
    isIsolated (adoptCredentialFor s i c).2 j = isIsolated s j
  adoptFor_anchor : ∀ s i c, hostAnchor (adoptCredentialFor s i c).2 = hostAnchor s
  adoptFor_token : ∀ {s i c}, (adoptCredentialFor s i c).1 = true → ∀ r k,
    getToken (adoptCredentialFor s i c).2 r k =
      if r = .isolated i ∧ k ∈ bootstrapKeys then c else getToken s r k
  reset_isolated : ∀ s i j, isIsolated (resetIdentity s i) j = isIsolated s j
  reset_anchor : ∀ s i, hostAnchor (resetIdentity s i) = hostAnchor s
  reset_token : ∀ {s i}, isIsolated s i = true → ∀ r k,
    getToken (resetIdentity s i) r k = if r = .isolated i then "" else getToken s r k
  adopt_isolated : ∀ s r c j, isIsolated (adoptCredential s r c) j = isIsolated s j
  adopt_token : ∀ s c r k, getToken (adoptCredential s .ring c) r k =
    if r = .ring ∧ k ∈ bootstrapKeys then c else getToken s r k
  save_isolated : ∀ s r k t j, isIsolated (saveToken s r k t) j = isIsolated s j
  save_token : ∀ {s r}, (∀ i, r = .isolated i → isIsolated s i = true) → ∀ k t r' k',
    getToken (saveToken s r k t) r' k' = if r' = r ∧ k' = k then t else getToken s r' k'

namespace TokenManager

structure Tables where
  isolated : List Identity
  tokens : StoreRef → Key → Token

namespace Tables

def holds (s : Tables) : StoreRef → Prop
  | .isolated i => i ∈ s.isolated
  | _ => True

instance (s : Tables) (r : StoreRef) : Decidable (s.holds r) := by
  cases r <;> unfold holds <;> infer_instance

def getToken (s : Tables) (r : StoreRef) (k : Key) : Token :=
  if s.holds r then s.tokens r k else ""

def put (s : Tables) (r : StoreRef) (f : Key → Token) : Tables :=
  { s with tokens := Function.update s.tokens r f }

theorem getToken_put {s : Tables} {r : StoreRef} (h : s.holds r) (f : Key → Token)
    (r' : StoreRef) (k : Key) :
    (s.put r f).getToken r' k = if r' = r then f k else s.getToken r' k := by
  have he : (s.put r f).holds r' ↔ s.holds r' := by cases r' <;> rfl
  simp only [getToken, he]
  by_cases hr : r' = r
  · subst r'
    simp only [if_pos h, ↓reduceIte, put, Function.update_self]
  · simp only [if_neg hr, put, Function.update_of_ne hr]

end Tables

def tables : TokenManager Tables where
  bootstrapKeys := ["core", "capability_module"]
  isIsolated s i := decide (i ∈ s.isolated)
  getToken := Tables.getToken
  hostAnchor s := s.tokens .ring "core"
  isolateIdentity s i :=
    if i ∈ s.isolated then (true, s)
    else (true, { isolated := i :: s.isolated,
                  tokens := Function.update s.tokens (.isolated i) fun _ => "" })
  adoptCredentialFor s i c :=
    if i ∈ s.isolated ∧ c ≠ s.tokens .ring "core" then
      (true, s.put (.isolated i) fun k =>
        if k ∈ ["core", "capability_module"] then c else s.getToken (.isolated i) k)
    else (false, s)
  resetIdentity s i := if i ∈ s.isolated then s.put (.isolated i) fun _ => "" else s
  adoptCredential s r c :=
    s.put r fun k => if k ∈ ["core", "capability_module"] then c else s.getToken r k
  saveToken s r k t := s.put r fun k' => if k' = k then t else s.getToken r k'
  bootstrapKeys_ne := nofun
  absent_store := by
    intro s i h k
    have hi : ¬ s.holds (.isolated i) := of_decide_eq_false h
    simp only [Tables.getToken, if_neg hi]
  isolate_again := by
    intro s i h
    simp only [if_pos (of_decide_eq_true h)]
  isolate_refused := by
    intro s i h
    split at h <;> cases h
  isolate_isolated := by
    intro s i _ j
    split
    next hi =>
      by_cases hj : j = i
      · subst j; simp only [hi, decide_true, Bool.or_self]
      · simp only [hj, decide_false, Bool.or_false]
    next hi =>
      simp only [List.mem_cons, Bool.decide_or, Bool.or_comm]
  isolate_anchor := by
    intro s i
    have hr : StoreRef.ring ≠ .isolated i := nofun
    split
    · rfl
    · simp only [Function.update_of_ne hr]
  isolate_token := by
    intro s i r k
    split
    next hi => rfl
    next hi =>
      by_cases hr : r = .isolated i
      · subst r
        have he : ¬ s.holds (.isolated i) := hi
        simp only [Tables.getToken, Function.update_self, if_neg he, ite_self]
      · have he : (Tables.holds ⟨i :: s.isolated,
            Function.update s.tokens (.isolated i) fun _ => ""⟩ r) ↔ s.holds r := by
          cases r with
          | isolated j =>
            have hj : j ≠ i := fun h => hr (h ▸ rfl)
            simp only [Tables.holds, List.mem_cons, hj, false_or]
          | ring => rfl
          | explicit => rfl
        simp only [Tables.getToken, Function.update_of_ne hr, he]
  adoptFor_answer := by
    intro s i c
    split
    next h => simp only [h.1, decide_true, Bool.true_and]; exact (decide_eq_true h.2).symm
    next h =>
      simp only [← Bool.decide_and]
      exact (decide_eq_false h).symm
  adoptFor_refused := by
    intro s i c h
    split at h
    next hc => cases h
    next hc => rw [if_neg hc]
  adoptFor_isolated := by
    intro s i c j
    split <;> rfl
  adoptFor_anchor := by
    intro s i c
    have hr : StoreRef.ring ≠ .isolated i := nofun
    split
    · simp only [Tables.put, Function.update_of_ne hr]
    · rfl
  adoptFor_token := by
    intro s i c h r k
    split at h
    next hc =>
      have he : s.holds (.isolated i) := hc.1
      rw [if_pos hc, Tables.getToken_put he]
      by_cases hr : r = .isolated i
      · subst r
        simp only [true_and, ↓reduceIte]
      · simp only [hr, false_and, ↓reduceIte]
    next hc => cases h
  reset_isolated := by
    intro s i j
    split <;> rfl
  reset_anchor := by
    intro s i
    split
    next h =>
      have hr : StoreRef.ring ≠ .isolated i := nofun
      simp only [Tables.put, Function.update_of_ne hr]
    next h => rfl
  reset_token := by
    intro s i h r k
    have he : s.holds (.isolated i) := of_decide_eq_true h
    rw [if_pos (of_decide_eq_true h), Tables.getToken_put he]
  adopt_isolated := fun _ _ _ _ => rfl
  adopt_token := by
    intro s c r k
    rw [Tables.getToken_put (r := .ring) trivial]
    by_cases hr : r = .ring
    · subst r
      simp only [true_and, ↓reduceIte]
    · simp only [hr, false_and, ↓reduceIte]
  save_isolated := fun _ _ _ _ _ => rfl
  save_token := by
    intro s r h k t r' k'
    have he : s.holds r := by
      cases r with
      | isolated i => exact of_decide_eq_true (h i rfl)
      | ring | explicit => trivial
    rw [Tables.getToken_put he]
    by_cases hr : r' = r
    · subst r'
      simp only [true_and, ↓reduceIte]
    · simp only [hr, false_and, ↓reduceIte]

end TokenManager

end LogosPluginQt
