import Mathlib.Data.List.Nodup
import LogosPluginQt.ConsumerEffects

namespace LogosPluginQt
open Interleaving ConsumerProg ConsumerPhase ConsumerWorld
set_option autoImplicit true

section
variable {σ : Type} {tm : TokenManager σ} {identity : Identity} {w w' : ConsumerWorld σ}
  {κ κ' : ConsumerPhase} {t u : Nat}

variable (tm identity w) in
structure OverlapInvariant (φ : Nat → List ConsumerPhase) : Prop where
  ledger : Ledger identity w
  single : ∀ t, (φ t).length ≤ 1
  owes : ∀ t, ∀ κ ∈ φ t, κ.Owes tm identity t w
  fresh : ∀ t, t ∉ w.started →
    φ t = [] ∧ (∀ a ∈ w.minted, a.call ≠ t) ∧ ∀ ok, (t, ok) ∉ w.results
  settled : ∀ t ok, (t, ok) ∈ w.results → ∀ κ ∈ φ t, κ = .logged
  returned : ∀ t, (t, true) ∈ w.results → ∃ a ∈ w.adopted, a.call = t
  token : ∀ a, w.adopted.head? = some a → (∀ t c, .cleared identity c ∉ φ t) →
    ∀ k ∈ tm.bootstrapKeys, tm.getToken w.tokens (.isolated identity) k = a.credential

variable {φ : Nat → List ConsumerPhase}

theorem single_update {κs : List ConsumerPhase} (h : ∀ t, (φ t).length ≤ 1)
    (hκs : κs.length ≤ 1) : ∀ u, (Function.update φ t κs u).length ≤ 1 :=
  (Function.forall_update_iff φ fun _ κs => κs.length ≤ 1).2 ⟨hκs, fun u _ => h u⟩

/-- The store follows the last adoption as long as nobody has cleared it since. -/
theorem OverlapInvariant.run_token (h : OverlapInvariant tm identity w φ)
    (hE : Effect tm identity t κ κ' w w') (hφ : φ t = [κ]) {a : Registration}
    (ha : w'.adopted.head? = some a)
    (hclear : ∀ u c, .cleared identity c ∉ Function.update φ t [κ'] u) {k : Key}
    (hk : k ∈ tm.bootstrapKeys) :
    tm.getToken w'.tokens (.isolated identity) k = a.credential := by
  obtain ⟨c, rfl⟩ | ⟨b, hb, htoken⟩ | ⟨hsame, hκ, htoken⟩ := hE.token
  · refine absurd ?_ (hclear t c)
    rw [Function.update_self]
    exact List.mem_cons_self ..
  · obtain rfl := Option.some.inj (ha.symm.trans hb)
    exact htoken k hk
  · rw [htoken k hk]
    apply h.token a (hsame ▸ ha) ?_ k hk
    intro u c hu
    apply hclear u c (mem_update_of hu ?_)
    rintro rfl
    rw [hφ] at hu
    exact absurd (List.mem_singleton.1 hu).symm (hκ c)

theorem OverlapInvariant.run_fresh (h : OverlapInvariant tm identity w φ)
    (hm : MovedBy tm t w w') (hφ : φ t = [κ]) (hu : u ∉ w'.started) :
    Function.update φ t [κ'] u = [] ∧ (∀ a ∈ w'.minted, a.call ≠ u) ∧
      ∀ ok, (u, ok) ∉ w'.results := by
  rw [hm.started] at hu
  obtain ⟨hidle, hmint, hres⟩ := h.fresh u hu
  have hne : u ≠ t := by
    rintro rfl
    rw [hidle] at hφ
    cases hφ
  rw [Function.update_of_ne hne]
  refine ⟨hidle, fun a ha hau => ?_, fun ok hok => ?_⟩
  · exact hmint a (hm.others a ha (hau ▸ hne)) hau
  · exact hres ok (hm.results _ hok hne)

theorem OverlapInvariant.not_returned {a : ConsumerAction} {r : a.Ans}
    (h : OverlapInvariant tm identity w φ) (hφ : φ t = [κ]) (hm : Move κ a r κ') (ok : Bool) :
    (t, ok) ∉ w.results := by
  intro hok
  obtain rfl := h.settled t ok hok κ (hφ ▸ List.mem_cons_self ..)
  cases hm with
  | log _ _ _ hr => cases hr

theorem OverlapInvariant.run {a : ConsumerAction} {r : a.Ans}
    (h : OverlapInvariant tm identity w φ) (hφ : φ t = [κ]) (hm : Move κ a r κ')
    (he : consumerExec tm t w a r w') :
    OverlapInvariant tm identity w' (Function.update φ t [κ']) := by
  have hκ : κ.Owes tm identity t w := h.owes t κ (hφ ▸ List.mem_cons_self ..)
  have hE := Effect.of_move h.ledger hκ hm he
  refine
    { ledger := hE.ledger
      single := fun u => ?_
      owes := fun u κ'' hmem => ?_
      fresh := fun u hu => h.run_fresh hE.moved hφ hu
      settled := fun u ok hok κ'' hmem => ?_
      returned := fun u hok => ?_
      token := fun a ha hclear k hk => h.run_token hE hφ ha hclear hk }
  · apply single_update h.single
    exact Nat.le_refl 1
  · obtain ⟨rfl, hself⟩ | ⟨hne, hother⟩ := mem_update hmem
    · obtain rfl := List.mem_singleton.1 hself
      exact hE.owes
    · exact (h.owes u κ'' hother).frame hE.moved hne
  · obtain ⟨rfl, hself⟩ | ⟨hne, hother⟩ := mem_update hmem
    · obtain rfl := List.mem_singleton.1 hself
      obtain hold | ⟨hlogged, _⟩ := hE.results ok hok
      · exact absurd hold (h.not_returned hφ hm ok)
      · exact hlogged
    · exact h.settled u ok (hE.moved.results _ hok hne) κ'' hother
  · have hkeep (hold : (u, true) ∈ w.results) : ∃ b ∈ w'.adopted, b.call = u := by
      obtain ⟨b, hb, hbu⟩ := h.returned u hold
      exact ⟨b, hE.moved.adopted b hb, hbu⟩
    by_cases hu : u = t
    · subst u
      obtain hold | ⟨_, hadopted⟩ := hE.results true hok
      · exact hkeep hold
      · exact hadopted rfl
    · exact hkeep (hE.moved.results _ hok hu)

theorem OverlapInvariant.leave (h : OverlapInvariant tm identity w φ) (hφ : φ t = [.logged]) :
    OverlapInvariant tm identity w (Function.update φ t []) := by
  have hsub {u : Nat} {κ : ConsumerPhase} (hmem : κ ∈ Function.update φ t [] u) : κ ∈ φ u := by
    obtain ⟨_, hself⟩ | ⟨_, hother⟩ := mem_update hmem
    · cases hself
    · exact hother
  refine
    { h with
      single := fun u => ?_
      owes := fun u κ hmem => h.owes u κ (hsub hmem)
      fresh := fun u hu => ⟨?_, (h.fresh u hu).2⟩
      settled := fun u ok hok κ hmem => h.settled u ok hok κ (hsub hmem)
      token := fun a ha hclear => h.token a ha fun u c hmem => ?_ }
  · apply single_update h.single
    exact Nat.zero_le 1
  · by_cases hut : u = t
    · subst u
      exact Function.update_self ..
    · rw [Function.update_of_ne hut]
      exact (h.fresh u hu).1
  · apply hclear u c (mem_update_of hmem ?_)
    rintro rfl
    rw [hφ] at hmem
    cases List.mem_singleton.1 hmem

theorem OverlapInvariant.enter (h : OverlapInvariant tm identity w φ) (ht : t ∉ w.started) :
    OverlapInvariant tm identity { w with started := t :: w.started }
      (Function.update φ t [.start identity]) := by
  obtain ⟨hidle, hmint, hres⟩ := h.fresh t ht
  have howes {u : Nat} {κ : ConsumerPhase} (hκ : κ.Owes tm identity u w) :
      κ.Owes tm identity u { w with started := t :: w.started } := by
    cases κ <;> exact hκ
  refine
    { ledger := { h.ledger with }
      single := fun u => ?_
      owes := fun u κ hmem => howes ?_
      fresh := fun u hu => ?_
      settled := fun u ok hok κ hmem => ?_
      returned := h.returned
      token := fun a ha hclear => h.token a ha fun u c hmem => hclear u c ?_ }
  · apply single_update h.single
    exact Nat.le_refl 1
  · obtain ⟨rfl, hself⟩ | ⟨_, hother⟩ := mem_update hmem
    · obtain rfl := List.mem_singleton.1 hself
      exact ⟨rfl, hmint⟩
    · exact h.owes u κ hother
  · obtain ⟨hne, hu⟩ := not_or.1 (mt List.mem_cons.2 hu)
    rw [Function.update_of_ne hne]
    exact h.fresh u hu
  · obtain ⟨rfl, _⟩ | ⟨_, hother⟩ := mem_update hmem
    · exact absurd hok (hres ok)
    · exact h.settled u ok hok κ hother
  · apply mem_update_of hmem
    rintro rfl
    rw [hidle] at hmem
    cases hmem

theorem OverlapInvariant.alone (h : OverlapInvariant tm identity w φ) (hφ : φ t = κ :: rest) :
    rest = [] := by
  have hs := h.single t
  rw [hφ, List.length_cons] at hs
  exact List.length_eq_zero_iff.1 (Nat.le_zero.1 (Nat.le_of_succ_le_succ hs))

theorem overlap_invariant (tm : TokenManager σ) (identity : Identity) :
    PhaseInvariant (consumerOverlap tm identity) next (fun _ κ => κ = .logged)
      (OverlapInvariant tm identity) where
  run h hφ he hn := by
    obtain rfl := h.alone hφ
    exact h.run hφ (next_move hn) he
  leave h hφ hκ := by
    obtain rfl := h.alone hφ
    exact h.leave (hκ ▸ hφ)
  enter h _ he := by
    obtain ⟨_, ht, rfl, ⟨host, rfl⟩ | ⟨api, host, hapi, rfl⟩⟩ := he
    · exact ⟨_, ConsumerOp.call_follows _, h.enter ht⟩
    · refine ⟨_, ConsumerOp.call_follows _, ?_⟩
      simp only [ConsumerOp.phase, Option.elim_some, hapi]
      exact h.enter ht
  nest _ _ _ he := nomatch he.1

theorem overlap_reachable {s : σ} {c : Config ConsumerAction.Ans Unit (ConsumerWorld σ)}
    (h : Reachable (consumerOverlap tm identity) { tokens := s } c) :
    ∃ φ, OverlapInvariant tm identity c.shared φ := by
  have h₀ : OverlapInvariant tm identity { tokens := s } fun _ => [] :=
    { ledger := ⟨List.nodup_nil, List.nodup_nil, nofun, nofun⟩
      single := fun _ => Nat.zero_le 1
      owes := nofun
      fresh := fun _ _ => ⟨rfl, nofun, nofun⟩
      settled := nofun
      returned := nofun
      token := nofun }
  obtain ⟨φ, _, hI⟩ := (overlap_invariant tm identity).reachable h₀ h
  exact ⟨φ, hI⟩

variable (tm identity w) in
def HoldsLatest : Prop :=
  ∀ k ∈ tm.bootstrapKeys,
    w.latest identity = some (tm.getToken w.tokens (.isolated identity) k)

variable (w) in
def AllSucceeded : Prop := w.started ≠ [] ∧ ∀ t ∈ w.started, (t, true) ∈ w.results

theorem Ledger.latest_eq {b : Registration} {accepted : List Registration}
    (h : Ledger identity w) (hb : w.accepted = b :: accepted) :
    w.latest identity = some b.credential := by
  have hid : decide (b.identity = identity) = true :=
    decide_eq_true (h.accepted b (hb ▸ List.mem_cons_self ..)).2
  simp only [latest, hb, List.find?_cons, hid, Option.map_some]

theorem Ledger.credential_eq_iff (h : Ledger identity w) {a b : Registration}
    (ha : a ∈ w.minted) (hb : b ∈ w.minted) : b.credential = a.credential ↔ a.call = b.call := by
  constructor
  · intro he
    rw [List.inj_on_of_nodup_map h.credentials hb ha he]
  · intro he
    rw [List.inj_on_of_nodup_map h.calls ha hb he]

theorem OverlapInvariant.no_cleared (h : OverlapInvariant tm identity w φ)
    (hall : AllSucceeded w) (t : Nat) (c : Token) : .cleared identity c ∉ φ t := by
  intro hmem
  have ht : t ∈ w.started := by
    by_contra ht
    rw [(h.fresh t ht).1] at hmem
    cases hmem
  cases h.settled t true (hall.2 t ht) _ hmem

/-- Once every overlapping call has succeeded, the store holds the credential accepted
last exactly when the call that was accepted last also adopted last. -/
theorem overlap_holds_latest_iff {s : σ}
    {c : Config ConsumerAction.Ans Unit (ConsumerWorld σ)}
    (h : Reachable (consumerOverlap tm identity) { tokens := s } c)
    (hall : AllSucceeded c.shared) :
    HoldsLatest tm identity c.shared ↔
      c.shared.adopted.head?.map Registration.call =
        c.shared.accepted.head?.map Registration.call := by
  obtain ⟨φ, hI⟩ := overlap_reachable h
  obtain ⟨t, ht⟩ := List.exists_mem_of_ne_nil _ hall.1
  obtain ⟨a₀, ha₀, _⟩ := hI.returned t (hall.2 t ht)
  obtain ⟨a, adopted, hadopted⟩ := List.exists_cons_of_ne_nil (List.ne_nil_of_mem ha₀)
  have ha : a ∈ c.shared.accepted := hI.ledger.adopted a (hadopted ▸ List.mem_cons_self ..)
  obtain ⟨b, accepted, haccepted⟩ := List.exists_cons_of_ne_nil (List.ne_nil_of_mem ha)
  have hb : b ∈ c.shared.accepted := haccepted ▸ List.mem_cons_self ..
  have htoken := hI.token a (by rw [hadopted]; rfl) (hI.no_cleared hall)
  have hcredential : HoldsLatest tm identity c.shared ↔ b.credential = a.credential := by
    obtain ⟨k, hk⟩ := List.exists_mem_of_ne_nil _ tm.bootstrapKeys_ne
    simp only [HoldsLatest, hI.ledger.latest_eq haccepted, Option.some.injEq]
    constructor
    · intro hlatest
      exact (hlatest k hk).trans (htoken k hk)
    · intro he k' hk'
      exact he.trans (htoken k' hk').symm
  rw [hcredential, hI.ledger.credential_eq_iff (hI.ledger.accepted a ha).1
    (hI.ledger.accepted b hb).1, hadopted, haccepted]
  simp only [List.head?_cons, Option.map_some, Option.some.injEq]

end

def twoEntered : ConsumerWorld TokenManager.Tables :=
  { tokens := TokenManager.hostTables, started := [1, 0] }

def bothRegistered : ConsumerWorld TokenManager.Tables :=
  (twoEntered.registered .tables 0 "app" "c1").registered .tables 1 "app" "c2"

/-- Each call installs its own credential from here, whenever its turn comes. -/
theorem both_registered : ∃ (p₀ p₁ : ConsumerProg Unit)
    (c : Config ConsumerAction.Ans Unit (ConsumerWorld _)),
    Reachable (consumerOverlap .tables "app") { tokens := TokenManager.hostTables } c ∧
      c.shared = bothRegistered ∧
      (c.stack 0 = [p₀] ∧ c.stack 1 = [p₁] ∧ ∀ t, t ≠ 0 → t ≠ 1 → c.stack t = []) ∧
      (∀ w, (TokenManager.tables.adoptCredentialFor w.tokens "app" "c1").1 = true →
        Runs (consumerExec .tables 0) w p₀ () ((w.installed .tables 0 "app" "c1").log 0 true)) ∧
      ∀ w, (TokenManager.tables.adoptCredentialFor w.tokens "app" "c2").1 = true →
        Runs (consumerExec .tables 1) w p₁ () ((w.installed .tables 1 "app" "c2").log 1 true) := by
  let admission : ConsumerProg Unit := (ConsumerOp.admission "app" (some hostAPI)).call
  have hfirst : ∃ p, Advances (consumerExec .tables 0) twoEntered admission p
      (twoEntered.registered .tables 0 "app" "c1") ∧ ∀ w', _ → Runs (consumerExec .tables 0) w'
        p () ((w'.installed .tables 0 "app" "c1").log 0 true) :=
    admit_call_registers (by decide) rfl ⟨by decide, by decide, nofun⟩ (by decide)
  have hsecond : ∃ p, Advances (consumerExec .tables 1)
      (twoEntered.registered .tables 0 "app" "c1") admission p bothRegistered ∧
      ∀ w', _ → Runs (consumerExec .tables 1) w'
        p () ((w'.installed .tables 1 "app" "c2").log 1 true) :=
    admit_call_registers (by decide) rfl
      ⟨by decide, by decide, List.forall_mem_singleton.2 (by decide)⟩ (by decide)
  obtain ⟨p₀, hregister₀, hinstall₀⟩ := hfirst
  obtain ⟨p₁, hregister₁, hinstall₁⟩ := hsecond
  have h₀ := Reachable.refl (consumerOverlap .tables "app") { tokens := TokenManager.hostTables }
  have h₁ := h₀.step (.enter (t := 0) rfl ⟨rfl, nofun, rfl, .inl ⟨some hostAPI, rfl⟩⟩)
  have h₂ := h₁.step (.enter (t := 1) rfl ⟨rfl, by decide, rfl, .inl ⟨some hostAPI, rfl⟩⟩)
  have h₃ := h₂.advance (t := 0) rfl hregister₀
  have h₄ := h₃.advance (t := 1) rfl hregister₁
  refine ⟨p₀, p₁, _, h₄, rfl, ⟨rfl, rfl, fun t ht ht' => ?_⟩, hinstall₀, hinstall₁⟩
  simp only [Function.update_of_ne ht, Function.update_of_ne ht']

def bothOrdered : ConsumerWorld TokenManager.Tables :=
  ((((bothRegistered.installed .tables 0 "app" "c1").log 0 true).installed
    .tables 1 "app" "c2").log 1 true)

/-- Two admissions of one identity that overlap, the first to be accepted adopting first. -/
theorem overlap_holds_latest_iff_ordered : ∃ c : Config _ _ _,
    Reachable (consumerOverlap .tables "app") { tokens := TokenManager.hostTables } c ∧
      c.shared = bothOrdered ∧ HoldsLatest .tables "app" c.shared := by
  obtain ⟨p₀, p₁, c, hr, hc, ⟨hp₀, hp₁, _⟩, hinstall₀, hinstall₁⟩ := both_registered
  have h₁ := hr.advance hp₀ (hinstall₀ _ (by rw [hc]; rfl)).advances
  have h₂ := h₁.advance (t := 1) hp₁ (hinstall₁ _ (by rw [hc]; rfl)).advances
  have hordered : ((((c.shared.installed .tables 0 "app" "c1").log 0 true).installed
      .tables 1 "app" "c2").log 1 true) = bothOrdered := by rw [hc]; rfl
  have hall : AllSucceeded bothOrdered := ⟨nofun, by decide⟩
  have hlatest := overlap_holds_latest_iff h₂ (hordered ▸ hall)
  exact ⟨_, h₂, hordered, hlatest.2 (by rw [hordered]; rfl)⟩

def bothReturned : ConsumerWorld TokenManager.Tables :=
  ((((bothRegistered.installed .tables 1 "app" "c2").log 1 true).installed
    .tables 0 "app" "c1").log 0 true)

theorem bothReturned_succeeded : AllSucceeded bothReturned := ⟨nofun, by decide⟩

theorem bothReturned_stale : ¬ HoldsLatest .tables "app" bothReturned := by
  intro hlatest
  exact absurd (hlatest "core" (by decide)) (by decide)

/-- Two admissions of one identity that overlap: the first to be accepted adopts last, and
what it installs is by then dead at capability_module. -/
theorem overlap_locks_out : ∃ c : Config ConsumerAction.Ans Unit (ConsumerWorld _),
    Reachable (consumerOverlap .tables "app") { tokens := TokenManager.hostTables } c ∧
      (∀ t, c.stack t = []) ∧ AllSucceeded c.shared ∧ ¬ HoldsLatest .tables "app" c.shared := by
  obtain ⟨p₀, p₁, ⟨shared, stack⟩, hr, rfl, ⟨hp₀, hp₁, hidle⟩, hinstall₀, hinstall₁⟩ :=
    both_registered
  have h₁ := hr.advance hp₁ (hinstall₁ _ rfl).advances
  have h₂ := h₁.advance (t := 0) hp₀ (hinstall₀ _ rfl).advances
  have h₃ := (h₂.step (.leave (t := 0) rfl)).step (.leave (t := 1) rfl)
  refine ⟨⟨bothReturned, _⟩, h₃, fun t => ?_, bothReturned_succeeded, bothReturned_stale⟩
  by_cases ht : t = 1
  · subst t
    rfl
  · by_cases ht' : t = 0
    · subst t
      rfl
    · simp only [Function.update_of_ne ht, Function.update_of_ne ht']
      exact hidle t ht' ht

end LogosPluginQt
