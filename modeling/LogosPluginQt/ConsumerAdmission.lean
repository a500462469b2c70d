import LogosPluginQt.ConsumerPhases

namespace LogosPluginQt
open Interleaving ConsumerProg ConsumerPhase
set_option autoImplicit true

section
variable {σ : Type} {tm : TokenManager σ} {t : Nat} {w w' : ConsumerWorld σ}

theorem hostCapabilityToken_runs {token : Token}
    (h : Runs (consumerExec tm t) w (hostCapabilityToken api) token w') : w' = w := by
  unfold hostCapabilityToken at h
  split at h
  · obtain ⟨r, w₁, he, h⟩ := runs_act.1 h
    obtain ⟨rfl, rfl⟩ := runs_ret.1 h
    exact he.2
  · exact (runs_ret.1 h).2

theorem registerAtCapability_runs {ok : Bool}
    (h : Runs (consumerExec tm t) w (registerAtCapability host i c) ok w') :
    w' = if ok = true then w.accept ⟨t, i, c⟩ else w := by
  cases host with
  | none =>
    obtain ⟨rfl, rfl⟩ := runs_ret.1 h
    rfl
  | some api =>
    obtain ⟨cap, w₁, hcap, h₁⟩ := runs_act.1 h
    obtain rfl := hcap
    cases cap with
    | false =>
      obtain ⟨rfl, rfl⟩ := runs_ret.1 h₁
      rfl
    | true =>
      obtain ⟨token, w₂, htoken, h₂⟩ := runs_bind (p := hostCapabilityToken api).1 h₁
      obtain rfl := hostCapabilityToken_runs htoken
      split at h₂
      · obtain ⟨rfl, rfl⟩ := runs_ret.1 h₂
        rfl
      · obtain ⟨accepted, w₃, haccept, h₃⟩ := runs_act.1 h₂
        cases accepted with
        | false =>
          obtain ⟨rfl, rfl⟩ := runs_ret.1 h₃
          exact haccept
        | true =>
          obtain ⟨rfl, rfl⟩ := runs_ret.1 h₃
          exact haccept

theorem forIdentity_runs (h : Runs (consumerExec tm t) w (LogosAPI.forIdentity i) x w') :
    (x = none ∧ w' = w) ∨
      x = some ⟨i, some (.isolated i)⟩ ∧ (tm.isolateIdentity w.tokens i).1 = true ∧
        w' = w.withTokens (tm.isolateIdentity w.tokens i).2 := by
  unfold LogosAPI.forIdentity at h
  split at h
  · exact .inl (runs_ret.1 h)
  · obtain ⟨ok, w₁, ⟨hok, rfl⟩, h₁⟩ := runs_act.1 h
    cases ok with
    | false =>
      obtain ⟨rfl, rfl⟩ := runs_ret.1 h₁
      rw [tm.isolate_refused hok.symm]
      exact .inl ⟨rfl, rfl⟩
    | true =>
      obtain ⟨rfl, rfl⟩ := runs_ret.1 h₁
      exact .inr ⟨rfl, hok.symm, rfl⟩

theorem adoptCredentialFor_fresh {s : σ} (hi : tm.isIsolated s i = true)
    (hc : c ≠ tm.hostAnchor s) : (tm.adoptCredentialFor s i c).1 = true := by
  rw [tm.adoptFor_answer, hi, Bool.true_and]
  exact decide_eq_true hc

/-- An admission either fails at or before registration and touches no store, or installs
the very credential capability_module has just accepted. -/
theorem admitConsumer_runs (h : Runs (consumerExec tm t) w (admitConsumer i host) x w') :
    (x = none ∧ w'.accepted = w.accepted ∧
      ∀ r k, tm.getToken w'.tokens r k = tm.getToken w.tokens r k) ∨
    ∃ c, x = some ⟨⟨i, some (.isolated i)⟩, c⟩ ∧ c ≠ "" ∧
      w'.accepted = ⟨t, i, c⟩ :: w.accepted ∧
      ∀ r k, tm.getToken w'.tokens r k =
        if r = .isolated i ∧ k ∈ tm.bootstrapKeys then c else tm.getToken w.tokens r k := by
  unfold admitConsumer at h
  split at h
  · obtain ⟨rfl, rfl⟩ := runs_ret.1 h
    exact .inl ⟨rfl, rfl, fun _ _ => rfl⟩
  · obtain ⟨api, w₁, hapi, h₁⟩ := runs_bind.1 h
    obtain ⟨rfl, rfl⟩ | ⟨rfl, hok, rfl⟩ := forIdentity_runs hapi
    · obtain ⟨rfl, rfl⟩ := runs_ret.1 h₁
      exact .inl ⟨rfl, rfl, fun _ _ => rfl⟩
    · obtain ⟨c, w₂, ⟨hfresh, rfl⟩, h₂⟩ := runs_act.1 h₁
      obtain ⟨registered, w₃, hreg, h₃⟩ := runs_bind (p := registerAtCapability host i c).1 h₂
      obtain rfl := registerAtCapability_runs hreg
      cases registered with
      | false =>
        obtain ⟨rfl, rfl⟩ := runs_ret.1 h₃
        exact .inl ⟨rfl, rfl, tm.isolate_token w.tokens i⟩
      | true =>
        obtain ⟨adopted, w₄, ⟨ha, rfl⟩, h₄⟩ := runs_act.1 h₃
        have hi : tm.isIsolated (tm.isolateIdentity w.tokens i).2 i = true := by
          rw [tm.isolate_isolated hok]
          simp only [decide_true, Bool.or_true]
        have hadopt := adoptCredentialFor_fresh hi hfresh.2.1
        obtain rfl : adopted = true := ha.trans hadopt
        obtain ⟨rfl, rfl⟩ := runs_ret.1 h₄
        refine .inr ⟨c, rfl, hfresh.1, rfl, fun r k => ?_⟩
        exact (tm.adoptFor_token hadopt r k).trans (by rw [tm.isolate_token])

theorem reissueConsumerCredential_runs
    (h : Runs (consumerExec tm t) w (reissueConsumerCredential (some api) host) x w') :
    (x = "" ∧ w'.accepted = w.accepted ∧
      ∀ r k, tm.getToken w'.tokens r k = tm.getToken w.tokens r k) ∨
    x ≠ "" ∧ w'.accepted = ⟨t, api.moduleName, x⟩ :: w.accepted ∧
      ∀ r k, tm.getToken w'.tokens r k =
        if r = .isolated api.moduleName then if k ∈ tm.bootstrapKeys then x else ""
        else tm.getToken w.tokens r k := by
  simp only [reissueConsumerCredential] at h
  split at h
  · obtain ⟨rfl, rfl⟩ := runs_ret.1 h
    exact .inl ⟨rfl, rfl, fun _ _ => rfl⟩
  · obtain ⟨isolated, w₁, ⟨hi, rfl⟩, h₁⟩ := runs_act.1 h
    cases isolated with
    | false =>
      obtain ⟨rfl, rfl⟩ := runs_ret.1 h₁
      exact .inl ⟨rfl, rfl, fun _ _ => rfl⟩
    | true =>
      obtain ⟨c, w₂, ⟨hfresh, rfl⟩, h₂⟩ := runs_act.1 h₁
      obtain ⟨registered, w₃, hreg, h₃⟩ :=
        runs_bind (p := registerAtCapability host api.moduleName c).1 h₂
      obtain rfl := registerAtCapability_runs hreg
      cases registered with
      | false =>
        obtain ⟨rfl, rfl⟩ := runs_ret.1 h₃
        exact .inl ⟨rfl, rfl, fun _ _ => rfl⟩
      | true =>
        obtain ⟨_, w₄, rfl, h₄⟩ := runs_act.1 h₃
        obtain ⟨adopted, w₅, ⟨ha, rfl⟩, h₅⟩ := runs_act.1 h₄
        have hi' : tm.isIsolated (tm.resetIdentity w₁.tokens api.moduleName)
            api.moduleName = true := (tm.reset_isolated _ _ _).trans hi.symm
        have hc : c ≠ tm.hostAnchor (tm.resetIdentity w₁.tokens api.moduleName) := by
          rw [tm.reset_anchor]
          exact hfresh.2.1
        have hadopt := adoptCredentialFor_fresh hi' hc
        obtain rfl : adopted = true := ha.trans hadopt
        obtain ⟨rfl, rfl⟩ := runs_ret.1 h₅
        refine .inr ⟨hfresh.1, rfl, fun r k => (tm.adoptFor_token hadopt r k).trans ?_⟩
        rw [tm.reset_token hi.symm]
        by_cases hr : r = .isolated api.moduleName
        · simp only [hr, true_and, ↓reduceIte]
        · simp only [hr, false_and, ↓reduceIte]

theorem adoptConsumerCredential_runs
    (h : Runs (consumerExec tm t) w (adoptConsumerCredential consumer credential) x w')
    (i : Identity) (k : Key) :
    tm.getToken w'.tokens (.isolated i) k = tm.getToken w.tokens (.isolated i) k := by
  cases consumer with
  | none => rw [(runs_ret.1 h).2]
  | some api =>
    simp only [adoptConsumerCredential] at h
    split at h
    · rw [(runs_ret.1 h).2]
    · split at h
      · rw [(runs_ret.1 h).2]
      · split at h
        · rw [(runs_ret.1 h).2]
        · next store _ hstore =>
          obtain rfl := not_not.1 hstore
          obtain ⟨_, w₁, rfl, h⟩ := runs_act.1 h
          rw [(runs_ret.1 h).2]
          have hr : StoreRef.isolated i ≠ .ring := fun he => by cases he
          exact (tm.adopt_token _ _ _ _).trans (if_neg fun hc => hr hc.1)

namespace ConsumerWorld

def registered (tm : TokenManager σ) (w : ConsumerWorld σ) (t : Nat) (i : Identity)
    (c : Token) : ConsumerWorld σ :=
  ((w.withTokens (tm.isolateIdentity w.tokens i).2).mint ⟨t, i, c⟩).accept ⟨t, i, c⟩

def installed (tm : TokenManager σ) (w : ConsumerWorld σ) (t : Nat) (i : Identity)
    (c : Token) : ConsumerWorld σ :=
  (w.withTokens (tm.adoptCredentialFor w.tokens i c).2).adopt ⟨t, i, c⟩

def admitted (tm : TokenManager σ) (w : ConsumerWorld σ) (t : Nat) (i : Identity)
    (c : Token) : ConsumerWorld σ :=
  (w.registered tm t i c).installed tm t i c

end ConsumerWorld

theorem registerAtCapability_accepts {store : StoreRef}
    (hcap : tm.getToken w.tokens store "capability_module" ≠ "") :
    Runs (consumerExec tm t) w (registerAtCapability (some ⟨name, some store⟩) i c) true
      (w.accept ⟨t, i, c⟩) := by
  refine .act (r := true) rfl ?_
  refine runs_bind (p := getToken store "capability_module").2
    ⟨_, w, .act ⟨rfl, rfl⟩ (.ret _ _), ?_⟩
  rw [if_neg hcap]
  exact .act (r := true) rfl (.ret _ _)

/-- An admission whose registration is accepted waits to install its credential, and does
so in whatever world it is resumed. -/
theorem admitConsumer_registers {store : StoreRef} (hi : i ≠ "")
    (hiso : (tm.isolateIdentity w.tokens i).1 = true)
    (hc : (w.withTokens (tm.isolateIdentity w.tokens i).2).Fresh tm c)
    (hcap : tm.getToken w.tokens store "capability_module" ≠ "") :
    ∃ p, Advances (consumerExec tm t) w (admitConsumer i (some ⟨name, some store⟩)) p
        (w.registered tm t i c) ∧
      ∀ w', (tm.adoptCredentialFor w'.tokens i c).1 = true →
        Runs (consumerExec tm t) w' p (some ⟨⟨i, some (.isolated i)⟩, c⟩)
          (w'.installed tm t i c) := by
  simp only [admitConsumer, if_neg hi, LogosAPI.forIdentity]
  have hcap' : tm.getToken (tm.isolateIdentity w.tokens i).2 store "capability_module" ≠ "" := by
    rwa [tm.isolate_token]
  have hreg : Advances (consumerExec tm t)
      ((w.withTokens (tm.isolateIdentity w.tokens i).2).mint ⟨t, i, c⟩)
      (registerAtCapability (some ⟨name, some store⟩) i c) (.ret true)
      (w.registered tm t i c) := (registerAtCapability_accepts hcap').advances
  refine ⟨_, .act ⟨hiso.symm, rfl⟩ (.act ⟨hc, rfl⟩ (hreg.bind _)), fun w' hadopt => ?_⟩
  exact .act ⟨hadopt.symm, rfl⟩ (.ret _ _)

theorem admit_call_registers {store : StoreRef} (hi : i ≠ "")
    (hiso : (tm.isolateIdentity w.tokens i).1 = true)
    (hc : (w.withTokens (tm.isolateIdentity w.tokens i).2).Fresh tm c)
    (hcap : tm.getToken w.tokens store "capability_module" ≠ "") :
    ∃ p, Advances (consumerExec tm t) w (ConsumerOp.admission i (some ⟨name, some store⟩)).call p
        (w.registered tm t i c) ∧
      ∀ w', (tm.adoptCredentialFor w'.tokens i c).1 = true →
        Runs (consumerExec tm t) w' p () ((w'.installed tm t i c).log t true) := by
  obtain ⟨p, hp, hinstall⟩ := admitConsumer_registers hi hiso hc hcap
  refine ⟨_, (hp.bind _).bind _, fun w' hadopt => ?_⟩
  exact runs_bind.2 ⟨_, _, runs_bind.2 ⟨_, _, hinstall w' hadopt, .ret _ _⟩, .act rfl (.ret _ _)⟩

theorem admitConsumer_accepts {store : StoreRef} (hi : i ≠ "")
    (hiso : (tm.isolateIdentity w.tokens i).1 = true)
    (hc : (w.withTokens (tm.isolateIdentity w.tokens i).2).Fresh tm c)
    (hcap : tm.getToken w.tokens store "capability_module" ≠ "") :
    Runs (consumerExec tm t) w (admitConsumer i (some ⟨name, some store⟩))
      (some ⟨⟨i, some (.isolated i)⟩, c⟩) (w.admitted tm t i c) := by
  obtain ⟨p, hp, hinstall⟩ := admitConsumer_registers hi hiso hc hcap
  refine hp.runs (hinstall _ (adoptCredentialFor_fresh ?_ hc.2.1))
  refine (tm.isolate_isolated hiso i).trans ?_
  simp only [decide_true, Bool.or_true]

/-- The store of `i` holds the credential under each bootstrap key and nothing else. -/
def Clean (tm : TokenManager σ) (s : σ) (i : Identity) (c : Token) : Prop :=
  ∀ k, tm.getToken s (.isolated i) k = if k ∈ tm.bootstrapKeys then c else ""

def NoTargetTokens (tm : TokenManager σ) (s : σ) (i : Identity) : Prop :=
  ∀ k, k ∉ tm.bootstrapKeys → tm.getToken s (.isolated i) k = ""

theorem clean_iff {s s' : σ} (h : ∀ r k, tm.getToken s' r k =
    if r = .isolated i ∧ k ∈ tm.bootstrapKeys then c else tm.getToken s r k) :
    Clean tm s' i c ↔ NoTargetTokens tm s i := by
  constructor
  · intro hclean k hk
    have hk' := (h (.isolated i) k).symm.trans (hclean k)
    simpa only [hk, and_false, ↓reduceIte] using hk'
  · intro hnone k
    rw [h (.isolated i) k]
    by_cases hk : k ∈ tm.bootstrapKeys
    · simp only [hk, and_true, ↓reduceIte]
    · simpa only [hk, and_false, ↓reduceIte] using hnone k hk

structure ConsumerCall (σ : Type) where
  op : ConsumerOp
  result : ConsumerResult
  before : ConsumerWorld σ
  after : ConsumerWorld σ

/-- The completed calls of a sequence, newest first. -/
inductive History (tm : TokenManager σ) (s : σ) : List (ConsumerCall σ) → ConsumerWorld σ → Prop
  | nil : History tm s [] { tokens := s }
  | call {calls : List (ConsumerCall σ)} {w w' : ConsumerWorld σ} {op : ConsumerOp}
      {result : ConsumerResult} :
      History tm s calls w → op.Allowed tm w → Runs (consumerExec tm 0) w op.prog result w' →
      History tm s (⟨op, result, w, w'⟩ :: calls) (w'.log 0 result.success)

/-- Histories are the idle moments of the interleaved system. -/
theorem History.reachable {s : σ} {calls : List (ConsumerCall σ)}
    (h : History tm s calls w) :
    Reachable (consumerSequence tm) { tokens := s } ⟨w, fun _ => []⟩ := by
  induction h with
  | nil => exact .refl _ _
  | @call calls w w' op result _ hop hr ih =>
    have hcall : Runs (consumerExec tm 0) w op.call () (w'.log 0 result.success) :=
      runs_bind.2 ⟨result, w', hr, .act rfl (.ret _ _)⟩
    exact ih.call (t := 0) rfl ⟨rfl, rfl, rfl, op, hop, rfl⟩ hcall

theorem admit_clean_iff {consumer : ConsumerIdentity}
    (h : Runs (consumerExec tm t) w (ConsumerOp.admission i host).prog
      (.admitted (some consumer)) w') :
    Clean tm w'.tokens i consumer.credential ∧
        w'.accepted = ⟨t, i, consumer.credential⟩ :: w.accepted ↔
      NoTargetTokens tm w.tokens i := by
  obtain ⟨x, w₁, hx, h₁⟩ := runs_bind.1 h
  obtain ⟨he, rfl⟩ := runs_ret.1 h₁
  obtain rfl := ConsumerResult.admitted.inj he
  obtain ⟨hnone, _⟩ | ⟨c, he, _, ha, ht⟩ := admitConsumer_runs hx
  · cases hnone
  · obtain rfl := Option.some.inj he
    exact (and_iff_left ha).trans (clean_iff ht)

/-- In every sequence of calls, an admission leaves a clean store exactly when no
per-target token was in it before: admitting empties nothing. -/
theorem admission_clean_iff {s : σ} {calls : List (ConsumerCall σ)}
    (h : History tm s calls w) :
    ∀ e ∈ calls, ∀ i host consumer, e.op = .admission i host →
      e.result = .admitted (some consumer) →
      (Clean tm e.after.tokens i consumer.credential ∧
          e.after.accepted = ⟨0, i, consumer.credential⟩ :: e.before.accepted ↔
        NoTargetTokens tm e.before.tokens i) := by
  induction h with
  | nil =>
    intro e he
    cases he
  | call _ _ hr ih =>
    intro e he i host consumer hop hresult
    obtain rfl | he := List.mem_cons.1 he
    · obtain rfl := hop
      obtain rfl := hresult
      exact admit_clean_iff hr
    · exact ih e he i host consumer hop hresult

end

def TokenManager.hostTables : TokenManager.Tables where
  isolated := []
  tokens r _ := if r = .ring then "anchor" else ""

def hostAPI : LogosAPI := ⟨"host", some .ring⟩

def firstAdmission : ConsumerWorld TokenManager.Tables :=
  ConsumerWorld.admitted .tables { tokens := TokenManager.hostTables } 0 "app" "c1"

theorem firstAdmission_history : History .tables TokenManager.hostTables
    [⟨.admission "app" (some hostAPI), .admitted (some ⟨⟨"app", some (.isolated "app")⟩, "c1"⟩),
      { tokens := TokenManager.hostTables }, firstAdmission⟩] (firstAdmission.log 0 true) := by
  refine .call .nil trivial (runs_bind.2 ⟨_, _, ?_, .ret _ _⟩)
  exact admitConsumer_accepts (by decide) rfl ⟨by decide, by decide, nofun⟩ (by decide)

theorem admission_clean_iff_first :
    Clean .tables firstAdmission.tokens "app" "c1" ∧
      firstAdmission.accepted = [⟨0, "app", "c1"⟩] :=
  (admission_clean_iff firstAdmission_history _ (List.mem_singleton.2 rfl) "app" (some hostAPI)
    ⟨⟨"app", some (.isolated "app")⟩, "c1"⟩ rfl rfl).2 fun _ _ => rfl

/-- The same host once its consumer has cached the token it was issued for `target`. -/
def afterExchange : ConsumerWorld TokenManager.Tables :=
  (firstAdmission.log 0 true).withTokens
    (TokenManager.tables.saveToken firstAdmission.tokens (.isolated "app") "target" "t1")

/-- An identity admitted twice keeps the per-target token of its first life. -/
theorem readmission_not_clean : ∃ calls w, History .tables TokenManager.hostTables calls w ∧
    ∃ e ∈ calls, ∃ consumer, e.op = .admission "app" (some hostAPI) ∧
      e.result = .admitted (some consumer) ∧
      ¬ Clean .tables e.after.tokens "app" consumer.credential := by
  let exchange := ConsumerOp.exchange "app" "target" "t1"
  have hallowed : exchange.Allowed .tables (firstAdmission.log 0 true) := ⟨rfl, by decide⟩
  have hrun : Runs (consumerExec .tables 0) (firstAdmission.log 0 true) exchange.prog .done
      afterExchange := .act (r := ()) rfl (.ret _ _)
  let admission := ConsumerOp.admission "app" (some hostAPI)
  have hadmit : Runs (consumerExec .tables 0) (afterExchange.log 0 true)
      (admitConsumer "app" (some hostAPI)) (some ⟨⟨"app", some (.isolated "app")⟩, "c2"⟩) _ :=
    admitConsumer_accepts (by decide) rfl
      ⟨by decide, by decide, List.forall_mem_singleton.2 (by decide)⟩ (by decide)
  have hagain : Runs (consumerExec .tables 0) (afterExchange.log 0 true) admission.prog _ _ :=
    runs_bind.2 ⟨_, _, hadmit, .ret _ _⟩
  have hcalls := (firstAdmission_history.call hallowed hrun).call
    (show admission.Allowed _ _ from trivial) hagain
  refine ⟨_, _, hcalls, _, List.mem_cons_self .., _, rfl, rfl, ?_⟩
  intro hclean
  exact absurd (hclean "target") (by decide)

end LogosPluginQt
