import LogosPluginQt.ConsumerAdmission

namespace LogosPluginQt
open Interleaving ConsumerProg ConsumerPhase
set_option autoImplicit true

section
variable {σ : Type}

namespace ConsumerWorld

def Accepted (w : ConsumerWorld σ) (i : Identity) (c : Token) : Prop :=
  ∃ a ∈ w.accepted, a.identity = i ∧ a.credential = c

def MintedFor (w : ConsumerWorld σ) (i : Identity) (c : Token) : Prop :=
  ∃ a ∈ w.minted, a.identity = i ∧ a.credential = c

theorem latest_accept (w : ConsumerWorld σ) (a : Registration) (i : Identity) :
    (w.accept a).latest i = if a.identity = i then some a.credential else w.latest i := by
  by_cases h : a.identity = i
  · simp only [latest, accept_accepted, List.find?_cons, h, decide_true, ↓reduceIte,
      Option.map_some]
  · simp only [latest, accept_accepted, List.find?_cons, h, decide_false, ↓reduceIte]

theorem accepted_of_latest {w : ConsumerWorld σ} (h : w.latest i = some c) :
    w.Accepted i c := by
  obtain ⟨a, ha, rfl⟩ := Option.map_eq_some_iff.1 h
  have hi := List.find?_some ha
  exact ⟨a, List.mem_of_find?_eq_some ha, of_decide_eq_true hi, rfl⟩

end ConsumerWorld

open ConsumerWorld

variable (tm : TokenManager σ) (w : ConsumerWorld σ)

/-- Every credential in a private store was minted, and then accepted, for its identity. -/
def Provenance : Prop :=
  ∀ i, ∀ k ∈ tm.bootstrapKeys, tm.getToken w.tokens (.isolated i) k ≠ "" →
    w.MintedFor i (tm.getToken w.tokens (.isolated i) k) ∧
    w.Accepted i (tm.getToken w.tokens (.isolated i) k)

/-- The store holds no credential, or the one capability_module accepted last. -/
def Settled (i : Identity) : Prop :=
  ∀ k ∈ tm.bootstrapKeys, tm.getToken w.tokens (.isolated i) k = "" ∨
    w.latest i = some (tm.getToken w.tokens (.isolated i) k)

def ConsumerPhase.replacing : ConsumerPhase → Option Identity
  | .registered i _ | .cleared i _ => some i
  | _ => none

def ConsumerPhase.Holds : ConsumerPhase → Prop
  | .minting i => tm.isIsolated w.tokens i = true
  | .minted i c => tm.isIsolated w.tokens i = true ∧ c ≠ tm.hostAnchor w.tokens ∧
      ⟨0, i, c⟩ ∈ w.minted
  | .registered i c | .cleared i c => tm.isIsolated w.tokens i = true ∧
      c ≠ tm.hostAnchor w.tokens ∧ w.latest i = some c
  | .exchanging i k => tm.isIsolated w.tokens i = true ∧ k ∉ tm.bootstrapKeys
  | _ => True

/-- The state between two actions of a call in phase `κ`. -/
structure During (κ : ConsumerPhase) : Prop where
  holds : κ.Holds tm w
  minted : ∀ a ∈ w.accepted, a ∈ w.minted
  accepted : ∀ i, ∀ k ∈ tm.bootstrapKeys, tm.getToken w.tokens (.isolated i) k ≠ "" →
    w.Accepted i (tm.getToken w.tokens (.isolated i) k)
  settled : ∀ i, κ.replacing ≠ some i → Settled tm w i

variable {tm w} {w' : ConsumerWorld σ} {κ κ' : ConsumerPhase} {t : Nat}

theorem During.provenance (h : During tm w κ) : Provenance tm w := by
  intro i k hk hne
  obtain ⟨a, ha, hi, hc⟩ := h.accepted i k hk hne
  exact ⟨⟨a, h.minted a ha, hi, hc⟩, a, ha, hi, hc⟩

theorem During.keep (h : During tm w κ) (hr : κ.replacing = none)
    (ha : w'.accepted = w.accepted) (hm : ∀ a ∈ w.minted, a ∈ w'.minted)
    (ht : ∀ i, ∀ k ∈ tm.bootstrapKeys,
      tm.getToken w'.tokens (.isolated i) k = tm.getToken w.tokens (.isolated i) k)
    (hκ : κ'.Holds tm w') : During tm w' κ' where
  holds := hκ
  minted := by
    rw [ha]
    exact fun a h' => hm a (h.minted a h')
  accepted i k hk := by
    simp only [Accepted, ha, ht i k hk]
    exact h.accepted i k hk
  settled i _ k hk := by
    simp only [latest, ha, ht i k hk]
    exact h.settled i (by simp only [hr, ne_eq, reduceCtorEq, not_false_eq_true]) k hk

/-- An accepted registration opens the window in which the old credential is dead. -/
theorem During.register (h : During tm w (.minted i c)) :
    During tm (w.accept ⟨0, i, c⟩) (.registered i c) where
  holds := ⟨h.holds.1, h.holds.2.1, (latest_accept ..).trans (if_pos rfl)⟩
  minted := by
    intro a ha
    obtain rfl | ha := List.mem_cons.1 ha
    · exact h.holds.2.2
    · exact h.minted a ha
  accepted j k hk hne := by
    obtain ⟨a, ha, hj, hc⟩ := h.accepted j k hk hne
    exact ⟨a, List.mem_cons_of_mem _ ha, hj, hc⟩
  settled j hj k hk := by
    have hne : i ≠ j := fun he => hj (congrArg some he)
    rw [latest_accept, if_neg hne]
    exact h.settled j nofun k hk

theorem During.reset (h : During tm w (.registered i c)) :
    During tm (w.withTokens (tm.resetIdentity w.tokens i)) (.cleared i c) where
  holds := by
    refine ⟨(tm.reset_isolated _ _ _).trans h.holds.1, ?_, h.holds.2.2⟩
    rw [withTokens_tokens, tm.reset_anchor]
    exact h.holds.2.1
  minted := h.minted
  accepted j k hk hne := by
    rw [withTokens_tokens, tm.reset_token h.holds.1] at hne ⊢
    split at hne
    · exact absurd rfl hne
    next hj =>
      rw [if_neg hj]
      exact h.accepted j k hk hne
  settled j hj k hk := by
    rw [withTokens_tokens, tm.reset_token h.holds.1]
    split
    · exact .inl rfl
    · exact h.settled j hj k hk

/-- Adoption closes the window: it cannot fail, and the store then holds the credential
accepted last. -/
theorem During.adopt (h : During tm w κ) (hκ : κ = .registered i c ∨ κ = .cleared i c)
    {r : Bool} (he : consumerExec tm t w (.adoptCredentialFor i c) r w') :
    During tm w' (.finished r) := by
  have hh : tm.isIsolated w.tokens i = true ∧ c ≠ tm.hostAnchor w.tokens ∧
      w.latest i = some c := by
    obtain rfl | rfl := hκ
    · exact h.holds
    · exact h.holds
  have hr : κ.replacing = some i := by
    obtain rfl | rfl := hκ
    · rfl
    · rfl
  have hadopt := adoptCredentialFor_fresh hh.1 hh.2.1
  obtain ⟨hok, rfl⟩ := he
  obtain rfl : r = true := hok.trans hadopt
  have ht := tm.adoptFor_token hadopt
  refine ⟨trivial, h.minted, fun j k hk hne => ?_, fun j _ k hk => ?_⟩
  · simp only [↓reduceIte, adopt_tokens, withTokens_tokens, ht] at hne ⊢
    split
    next hj =>
      obtain rfl : j = i := StoreRef.isolated.inj hj.1
      exact accepted_of_latest hh.2.2
    next hj =>
      rw [if_neg hj] at hne
      exact h.accepted j k hk hne
  · simp only [↓reduceIte, adopt_tokens, withTokens_tokens, ht]
    split
    next hj =>
      obtain rfl : j = i := StoreRef.isolated.inj hj.1
      exact .inr hh.2.2
    next hj =>
      refine h.settled j (fun he => hj ⟨?_, hk⟩) k hk
      rw [hr] at he
      rw [Option.some.inj he]

theorem replacing_of_mayReturn {ok : Bool} (h : κ.mayReturn ok = true) :
    κ.replacing = none := by
  cases κ with
  | registered | cleared => cases h
  | _ => rfl

theorem During.step {a : ConsumerAction} {r : a.Ans} (h : During tm w κ)
    (hm : Move κ a r κ') (he : consumerExec tm 0 w a r w') : During tm w' κ' := by
  cases hm with
  | isolate i r =>
    obtain ⟨hr, rfl⟩ := he
    refine h.keep rfl rfl (fun _ => id) (fun j k _ => tm.isolate_token _ _ _ k) ?_
    split
    next hok =>
      refine (tm.isolate_isolated (hr.symm.trans hok) i).trans ?_
      simp only [decide_true, Bool.or_true]
    · trivial
  | isolated i r =>
    obtain ⟨hr, rfl⟩ := he
    refine h.keep rfl rfl (fun _ => id) (fun _ _ _ => rfl) ?_
    split
    next hok => exact hr.symm.trans hok
    · trivial
  | mint i c =>
    obtain ⟨hfresh, rfl⟩ := he
    exact h.keep rfl rfl (fun _ => List.mem_cons_of_mem _) (fun _ _ _ => rfl)
      ⟨h.holds, hfresh.2.1, List.mem_cons_self ..⟩
  | client =>
    obtain rfl := he
    exact h.keep rfl rfl (fun _ => id) (fun _ _ _ => rfl) h.holds
  | hostToken =>
    obtain rfl := he.2
    exact h.keep rfl rfl (fun _ => id) (fun _ _ _ => rfl) h.holds
  | register i c token r =>
    obtain rfl := he
    cases r with
    | false => exact h.keep rfl rfl (fun _ => id) (fun _ _ _ => rfl) h.holds
    | true => exact h.register
  | reset i c r =>
    obtain rfl := he
    exact h.reset
  | adopt i c r => exact h.adopt (.inl rfl) he
  | readopt i c r => exact h.adopt (.inr rfl) he
  | adoptRing c r =>
    obtain rfl := he
    refine h.keep rfl rfl (fun _ => id) (fun j k _ => ?_) trivial
    exact (tm.adopt_token _ _ _ _).trans (if_neg fun hj => nomatch hj.1)
  | exchange i k token r =>
    obtain rfl := he
    refine h.keep rfl rfl (fun _ => id) (fun j k' hk' => ?_) trivial
    have hi : ∀ j, StoreRef.isolated i = .isolated j → tm.isIsolated w.tokens j = true := by
      rintro j ⟨⟩
      exact h.holds.1
    refine (tm.save_token hi _ _ _ _).trans (if_neg fun hj => ?_)
    exact h.holds.2 (hj.2 ▸ hk')
  | log κ ok r hok =>
    obtain rfl := he
    exact h.keep (replacing_of_mayReturn hok) rfl (fun _ => id) (fun _ _ _ => rfl) trivial

/-- No action both writes a store and is recorded by capability_module. -/
theorem consumerExec_tokens_or_accepted {a : ConsumerAction} {r : a.Ans}
    (he : consumerExec tm t w a r w') : w'.tokens = w.tokens ∨ w'.accepted = w.accepted := by
  cases a with
  | informModuleToken =>
    obtain rfl := he
    left
    split <;> rfl
  | adoptCredentialFor =>
    obtain ⟨_, rfl⟩ := he
    right
    split <;> rfl
  | isolateIdentity | isIsolated | mintCredential | getToken =>
    obtain ⟨_, rfl⟩ := he
    exact .inr rfl
  | _ =>
    obtain rfl := he
    exact .inr rfl

variable (tm w) in
def SequenceInvariant (φ : Nat → List ConsumerPhase) : Prop :=
  (∀ t, t ≠ 0 → φ t = []) ∧
    ((φ 0 = [] ∧ During tm w .logged) ∨ ∃ κ, φ 0 = [κ] ∧ During tm w κ)

theorem sequenceInvariant_update {φ : Nat → List ConsumerPhase} {κs : List ConsumerPhase}
    (h : ∀ t, t ≠ 0 → φ t = [])
    (hκ : (κs = [] ∧ During tm w .logged) ∨ ∃ κ, κs = [κ] ∧ During tm w κ) :
    SequenceInvariant tm w (Function.update φ 0 κs) := by
  refine ⟨fun t ht => ?_, ?_⟩
  · rw [Function.update_of_ne ht]
    exact h t ht
  · rwa [Function.update_self]

theorem SequenceInvariant.frame {φ : Nat → List ConsumerPhase} {rest : List ConsumerPhase}
    (h : SequenceInvariant tm w φ) (hφ : φ t = κ :: rest) :
    t = 0 ∧ rest = [] ∧ During tm w κ := by
  obtain rfl : t = 0 := by
    by_contra ht
    rw [h.1 t ht] at hφ
    cases hφ
  obtain ⟨h₀, _⟩ | ⟨κ', h₁, hd⟩ := h.2
  · rw [h₀] at hφ
    cases hφ
  · obtain ⟨rfl, rfl⟩ := List.cons.inj (h₁.symm.trans hφ)
    exact ⟨rfl, rfl, hd⟩

theorem SequenceInvariant.idle {φ : Nat → List ConsumerPhase}
    (h : SequenceInvariant tm w φ) (hφ : φ 0 = []) : During tm w .logged := by
  obtain ⟨_, hd⟩ | ⟨κ, h₁, _⟩ := h.2
  · exact hd
  · rw [h₁] at hφ
    cases hφ

theorem SequenceInvariant.during {φ : Nat → List ConsumerPhase}
    (h : SequenceInvariant tm w φ) : ∃ κ, During tm w κ := by
  obtain ⟨_, hd⟩ | ⟨κ, _, hd⟩ := h.2
  · exact ⟨_, hd⟩
  · exact ⟨κ, hd⟩

theorem During.enter {op : ConsumerOp} (h : During tm w .logged) (hop : op.Allowed tm w) :
    During tm w op.phase := by
  refine h.keep rfl rfl (fun _ => id) (fun _ _ _ => rfl) ?_
  cases op with
  | exchange => exact hop
  | _ => trivial

theorem sequence_invariant (tm : TokenManager σ) :
    PhaseInvariant (consumerSequence tm) next (fun _ κ => κ = .logged)
      (SequenceInvariant tm) where
  run h hφ he hn := by
    obtain ⟨rfl, rfl, hd⟩ := h.frame hφ
    exact sequenceInvariant_update h.1 (.inr ⟨_, rfl, hd.step (next_move hn) he⟩)
  leave h hφ hκ := by
    obtain ⟨rfl, rfl, hd⟩ := h.frame hφ
    exact sequenceInvariant_update h.1 (.inl ⟨rfl, hκ ▸ hd⟩)
  enter h hφ he := by
    obtain ⟨rfl, _, rfl, op, hop, rfl⟩ := he
    have hd := (h.idle hφ).enter hop
    exact ⟨op.phase, op.call_follows, sequenceInvariant_update h.1 (.inr ⟨_, rfl, hd⟩)⟩
  nest _ _ _ he := nomatch he.2.1

def NoCredentials (tm : TokenManager σ) (s : σ) : Prop :=
  ∀ i, ∀ k ∈ tm.bootstrapKeys, tm.getToken s (.isolated i) k = ""

variable {s : σ} {c c' : Config ConsumerAction.Ans Unit (ConsumerWorld σ)}

theorem sequence_reachable (hs : NoCredentials tm s)
    (h : Reachable (consumerSequence tm) { tokens := s } c) :
    ∃ φ, Tracks next (fun _ κ => κ = .logged) c φ ∧ SequenceInvariant tm c.shared φ := by
  refine (sequence_invariant tm).reachable ⟨fun _ _ => rfl, .inl ⟨rfl, ?_⟩⟩ h
  refine ⟨trivial, ?_, fun i k hk hne => absurd (hs i k hk) hne, fun i _ k hk => ?_⟩
  · intro a ha
    cases ha
  · exact .inl (hs i k hk)

theorem sequence_idle (hs : NoCredentials tm s)
    (h : Reachable (consumerSequence tm) { tokens := s } c) (hc : c.stack 0 = []) :
    During tm c.shared .logged := by
  obtain ⟨φ, hφ, hI⟩ := sequence_reachable hs h
  exact hI.idle (hφ.nil hc)

theorem sequence_during (hs : NoCredentials tm s)
    (h : Reachable (consumerSequence tm) { tokens := s } c) : ∃ κ, During tm c.shared κ := by
  obtain ⟨φ, _, hI⟩ := sequence_reachable hs h
  exact hI.during

theorem step_tokens_or_accepted (h : Step (consumerSequence tm) c c') :
    c'.shared.tokens = c.shared.tokens ∨ c'.shared.accepted = c.shared.accepted := by
  cases h with
  | run _ he => exact consumerExec_tokens_or_accepted he
  | leave => exact .inl rfl
  | enter _ he => exact .inl (by rw [he.2.2.1])
  | nest _ he => cases he.2.1

theorem credential_written (hs : NoCredentials tm s)
    (h : Reachable (consumerSequence tm) { tokens := s } c)
    (hstep : Step (consumerSequence tm) c c') {k : Key} (hk : k ∈ tm.bootstrapKeys)
    (hne : tm.getToken c'.shared.tokens (.isolated i) k ≠ "") :
    tm.getToken c'.shared.tokens (.isolated i) k = tm.getToken c.shared.tokens (.isolated i) k ∨
      c.shared.Accepted i (tm.getToken c'.shared.tokens (.isolated i) k) := by
  obtain ht | ha := step_tokens_or_accepted hstep
  · exact .inl (by rw [ht])
  · obtain ⟨κ, hd⟩ := sequence_during hs (h.step hstep)
    have haccepted := hd.accepted i k hk hne
    simp only [Accepted, ha] at haccepted
    exact .inr haccepted

/-- What is promised about credentials wherever a sequence of calls has come to. -/
structure CredentialsSound (tm : TokenManager σ)
    (c : Config ConsumerAction.Ans Unit (ConsumerWorld σ)) : Prop where
  provenance : Provenance tm c.shared
  written : ∀ c', Step (consumerSequence tm) c c' → ∀ i, ∀ k ∈ tm.bootstrapKeys,
    tm.getToken c'.shared.tokens (.isolated i) k ≠ "" →
    tm.getToken c'.shared.tokens (.isolated i) k = tm.getToken c.shared.tokens (.isolated i) k ∨
      c.shared.Accepted i (tm.getToken c'.shared.tokens (.isolated i) k)
  settled : (∀ t, c.stack t = []) → ∀ i, Settled tm c.shared i
  adopt_keeps : ∀ consumer credential w', Runs (consumerExec tm 0) c.shared
    (adoptConsumerCredential consumer credential) () w' → ∀ i k,
    tm.getToken w'.tokens (.isolated i) k = tm.getToken c.shared.tokens (.isolated i) k
  failed_admit_keeps : ∀ i host w', Runs (consumerExec tm 0) c.shared
    (admitConsumer i host) none w' → ∀ r k,
    tm.getToken w'.tokens r k = tm.getToken c.shared.tokens r k
  failed_reissue_keeps : ∀ consumer host w', Runs (consumerExec tm 0) c.shared
    (reissueConsumerCredential consumer host) "" w' → ∀ r k,
    tm.getToken w'.tokens r k = tm.getToken c.shared.tokens r k

theorem failed_reissue_keeps {consumer : Option LogosAPI}
    (h : Runs (consumerExec tm t) w (reissueConsumerCredential consumer host) "" w')
    (r : StoreRef) (k : Key) : tm.getToken w'.tokens r k = tm.getToken w.tokens r k := by
  cases consumer with
  | none => rw [(runs_ret.1 h).2]
  | some api =>
    obtain ⟨_, _, ht⟩ | ⟨hne, _⟩ := reissueConsumerCredential_runs h
    · exact ht r k
    · exact absurd rfl hne

theorem consumer_credentials_sound (tm : TokenManager σ) (hs : NoCredentials tm s)
    (h : Reachable (consumerSequence tm) { tokens := s } c) : CredentialsSound tm c where
  provenance := by
    obtain ⟨κ, hd⟩ := sequence_during hs h
    exact hd.provenance
  written c' hstep i k hk hne := credential_written hs h hstep hk hne
  settled hidle i := (sequence_idle hs h (hidle 0)).settled i nofun
  adopt_keeps consumer credential w' hr := adoptConsumerCredential_runs hr
  failed_admit_keeps i host w' hr := by
    obtain ⟨_, _, ht⟩ | ⟨_, hne, _⟩ := admitConsumer_runs hr
    · exact ht
    · cases hne
  failed_reissue_keeps consumer host w' hr := failed_reissue_keeps hr

end

theorem consumer_credentials_sound_first :
    CredentialsSound .tables ⟨firstAdmission.log 0 true, fun _ => []⟩ :=
  consumer_credentials_sound .tables (fun _ _ _ => rfl) firstAdmission_history.reachable

end LogosPluginQt
