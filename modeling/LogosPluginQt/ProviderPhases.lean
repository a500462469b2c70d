import LogosPluginQt.ApiProvider

namespace LogosPluginQt
open Interleaving LogosAPIProvider
set_option autoImplicit true

section
variable {V K : Type} {next : K → (a : ProviderAction V) → a.Ans → Option K}
  {mayReturn : K → Prop} {start checked : K} {hs : String → String}

/-- A table of phases that lets every call go from `start`, and a registration from `checked`. -/
structure CallTable (next : K → (a : ProviderAction V) → a.Ans → Option K)
    (mayReturn : K → Prop) (start checked : K) : Prop where
  returns : mayReturn start ∧ mayReturn checked
  free : next start .moduleProxy false = some checked
  taken : ∃ κ, next start .moduleProxy true = some κ ∧ mayReturn κ ∧
    ∀ m token r, ∃ κ', next κ (.proxySaveToken m token) r = some κ' ∧ mayReturn κ'
  created : ∀ o n, next checked (.createProviderObject o) (some n) = some start
  refused : ∀ o, next checked (.createProviderObject o) none = some checked
  wrapped : ∀ o r, next checked (.wrapObject o) r = some checked
  validator : ∀ v r, ∃ κ, next start (.setTokenValidator v) r = some κ ∧ mayReturn κ
  store : ∀ k token r, ∃ κ, next start (.storeToken k token) r = some κ ∧ mayReturn κ
  stamp : ∀ token r, ∃ κ, next start (.stampAuthToken token) r = some κ ∧ mayReturn κ

theorem CallTable.registerProvider (h : CallTable next mayReturn start checked)
    (hwith : ∀ name p, name ≠ "" →
      Follows next (fun _ κ => mayReturn κ) (registerWith hs name p) checked)
    (name : String) (p : Option ProviderRef) :
    Follows next (fun _ κ => mayReturn κ) (LogosAPIProvider.registerProvider hs name p) start := by
  cases p with
  | none => exact h.returns.1
  | some p =>
    by_cases hne : name = ""
    · simp only [LogosAPIProvider.registerProvider, if_pos hne]
      exact h.returns.1
    · simp only [LogosAPIProvider.registerProvider, if_neg hne]
      intro registered
      cases registered with
      | true =>
        obtain ⟨κ, hn, hκ, _⟩ := h.taken
        exact ⟨κ, hn, hκ⟩
      | false => exact ⟨checked, h.free, hwith name p hne⟩

theorem CallTable.registerObject (h : CallTable next mayReturn start checked)
    (hwith : ∀ name p, name ≠ "" →
      Follows next (fun _ κ => mayReturn κ) (registerWith hs name p) checked)
    (name : String) (object : Option PluginObject) :
    Follows next (fun _ κ => mayReturn κ) (LogosAPIProvider.registerObject hs name object)
      start := by
  cases object with
  | none => exact h.returns.1
  | some object =>
    by_cases hne : name = ""
    · simp only [LogosAPIProvider.registerObject, if_pos hne]
      exact h.returns.1
    have hwrap : Follows next (fun _ κ => mayReturn κ)
        (do perform (V := V) (.wrapObject object.object)
            registerWith hs name (.wrapped object.object)) checked :=
      fun r => ⟨checked, h.wrapped _ r, hwith name _ hne⟩
    simp only [LogosAPIProvider.registerObject, if_neg hne]
    intro registered
    cases registered with
    | true =>
      obtain ⟨κ, hn, hκ, _⟩ := h.taken
      exact ⟨κ, hn, hκ⟩
    | false =>
      refine ⟨checked, h.free, ?_⟩
      by_cases hp : object.isProviderPlugin = true
      · simp only [hp]
        intro provider
        cases provider with
        | none => exact ⟨checked, h.refused _, hwrap⟩
        | some n => exact ⟨start, h.created _ n, h.registerProvider hwith name (some (.native n))⟩
      · simp only [hp]
        exact hwrap

theorem CallTable.prog (h : CallTable next mayReturn start checked)
    (hwith : ∀ name p, name ≠ "" →
      Follows next (fun _ κ => mayReturn κ) (registerWith hs name p) checked)
    (op : ProviderOp V) : Follows next (fun _ κ => mayReturn κ) (op.prog hs) start := by
  cases op with
  | registerObject name object => exact h.registerObject hwith name object
  | registerProvider name p => exact h.registerProvider hwith name p
  | saveToken fromModule token =>
    intro present
    cases present with
    | false => exact ⟨checked, h.free, h.returns.2⟩
    | true =>
      obtain ⟨κ, hn, _, hsave⟩ := h.taken
      exact ⟨κ, hn, hsave fromModule token⟩
  | setTokenValidator v => exact h.validator v
  | storeToken k token => exact h.store k token
  | stampAuthToken token => exact h.stamp token

end

inductive ProviderPhase where
  | start
  | checked
  | proxied (p : ProviderRef)
  | seeded (p : ProviderRef)
  | announcing (p : ProviderRef)
  | announced (p : ProviderRef)
  | initialized (p : ProviderRef)
  | publishing (p : ProviderRef)
  | done
deriving DecidableEq

namespace ProviderPhase
variable {V : Type}

def next : ProviderPhase → (a : ProviderAction V) → a.Ans → Option ProviderPhase
  | .start, .moduleProxy, r => some (if r = true then .done else .checked)
  | .checked, .createProviderObject _, r => some (if r.isSome = true then .start else .checked)
  | .checked, .wrapObject _, _ => some .checked
  | .checked, .prepareHandshake p, _ => some (.proxied p)
  | .proxied p, .seedHandshakeTrustAnchor, _ => some (.seeded p)
  | .seeded p, .createHandshakeProxy, _ | .announcing p, .transports, _
  | .announcing p, .publishObject _ _ .handshake, _ => some (.announcing p)
  | .announcing p, .recordHandshake _ _, _ => some (.announced p)
  | .announced p, .init q, _ => if q = p then some (.initialized p) else none
  | .initialized p, .prepareProvider q, _ => if q = p then some (.publishing p) else none
  | .publishing p, .transports, _ | .publishing p, .publishObject _ _ .business, _
  | .publishing p, .recordObject _ _, _ => some (.publishing p)
  | .start, .setTokenValidator _, _ | .start, .storeToken _ _, _
  | .start, .stampAuthToken _, _ | .done, .proxySaveToken _ _, _ => some .done
  | _, _, _ => none

inductive Move : ProviderPhase → (a : ProviderAction V) → a.Ans → ProviderPhase → Prop
  | check (r) : Move .start .moduleProxy r (if r = true then .done else .checked)
  | create (o r) : Move .checked (.createProviderObject o) r
      (if r.isSome = true then .start else .checked)
  | wrap (o r) : Move .checked (.wrapObject o) r .checked
  | prepare (p r) : Move .checked (.prepareHandshake p) r (.proxied p)
  | seed (p r) : Move (.proxied p) .seedHandshakeTrustAnchor r (.seeded p)
  | handshakeProxy (p r) : Move (.seeded p) .createHandshakeProxy r (.announcing p)
  | hosts (p r) : Move (.announcing p) .transports r (.announcing p)
  | announce (p t name r) :
      Move (.announcing p) (.publishObject t name .handshake) r (.announcing p)
  | announced (p ok name r) : Move (.announcing p) (.recordHandshake ok name) r (.announced p)
  | init (p r) : Move (.announced p) (.init p) r (.initialized p)
  | reuse (p r) : Move (.initialized p) (.prepareProvider p) r (.publishing p)
  | hosts' (p r) : Move (.publishing p) .transports r (.publishing p)
  | publish (p t name r) :
      Move (.publishing p) (.publishObject t name .business) r (.publishing p)
  | published (p ok name r) : Move (.publishing p) (.recordObject ok name) r (.publishing p)
  | validator (v r) : Move .start (.setTokenValidator v) r .done
  | store (k token r) : Move .start (.storeToken k token) r .done
  | stamp (token r) : Move .start (.stampAuthToken token) r .done
  | save (m token r) : Move .done (.proxySaveToken m token) r .done

theorem next_move {κ κ' : ProviderPhase} {a : ProviderAction V} {r : a.Ans}
    (h : next κ a r = some κ') : Move κ a r κ' := by
  unfold next at h
  split at h
  case h_10 =>
    obtain ⟨rfl, he⟩ := Option.ite_none_right_eq_some.1 h
    obtain rfl := Option.some.inj he
    exact .init ..
  case h_11 =>
    obtain ⟨rfl, he⟩ := Option.ite_none_right_eq_some.1 h
    obtain rfl := Option.some.inj he
    exact .reuse ..
  case h_19 => cases h
  all_goals
    obtain rfl := Option.some.inj h
    constructor

def mayReturn : ProviderPhase → Prop
  | .start | .checked | .publishing _ | .done => True
  | _ => False

end ProviderPhase

open ProviderPhase

section
variable {V : Type}

theorem publishOn_follows {name : String} {surface : Surface} {κ : ProviderPhase}
    (h : ∀ t r, next κ (.publishObject (V := V) t name surface) r = some κ)
    (ts : List Nat) (published : Bool) :
    Follows next (fun _ κ' => κ' = κ) (publishOn (V := V) name surface ts published) κ := by
  induction ts generalizing published with
  | nil => rfl
  | cons t ts ih => exact fun r => ⟨κ, h t r, ih _⟩

theorem publishHandshake_follows (hs : String → String) (name : String) (p : ProviderRef) :
    Follows next (fun _ κ => κ = .announced p) (publishHandshake (V := V) hs name p)
      .checked := by
  intro _
  refine ⟨_, rfl, ?_⟩
  intro _
  refine ⟨_, rfl, ?_⟩
  intro _
  refine ⟨_, rfl, ?_⟩
  intro n
  refine ⟨_, rfl, ?_⟩
  apply follows_bind (p := publishOn (hs name) .handshake (List.range n) false)
  apply (publishOn_follows (fun _ _ => rfl) _ _).mono
  rintro published κ rfl
  exact fun _ => ⟨_, rfl, rfl⟩

theorem publishProvider_follows (name : String) (p : ProviderRef) :
    Follows next (fun _ κ => κ = .publishing p) (publishProvider (V := V) name p)
      (.initialized p) := by
  intro _
  refine ⟨_, if_pos rfl, ?_⟩
  intro n
  refine ⟨_, rfl, ?_⟩
  apply follows_bind (p := publishOn name .business (List.range n) false)
  apply (publishOn_follows (fun _ _ => rfl) _ _).mono
  rintro success κ rfl
  exact fun _ => ⟨_, rfl, rfl⟩

theorem registerWith_follows (hs : String → String) (name : String) (p : ProviderRef) :
    Follows next (fun _ κ => κ.mayReturn) (registerWith (V := V) hs name p) .checked := by
  apply follows_bind (p := publishHandshake hs name p)
  apply (publishHandshake_follows hs name p).mono
  rintro _ κ rfl
  intro _
  refine ⟨_, if_pos rfl, ?_⟩
  apply (publishProvider_follows name p).mono
  rintro _ κ rfl
  trivial

theorem ProviderPhase.table : CallTable (V := V) next mayReturn .start .checked where
  returns := ⟨trivial, trivial⟩
  free := rfl
  taken := ⟨.done, rfl, trivial, fun _ _ _ => ⟨.done, rfl, trivial⟩⟩
  created _ _ := rfl
  refused _ := rfl
  wrapped _ _ := rfl
  validator _ _ := ⟨.done, rfl, trivial⟩
  store _ _ _ := ⟨.done, rfl, trivial⟩
  stamp _ _ := ⟨.done, rfl, trivial⟩

theorem ProviderOp.prog_follows (hs : String → String) (op : ProviderOp V) :
    Follows next (fun _ κ => κ.mayReturn) (op.prog hs) .start :=
  ProviderPhase.table.prog (fun name p _ => registerWith_follows hs name p) op

end

end LogosPluginQt
