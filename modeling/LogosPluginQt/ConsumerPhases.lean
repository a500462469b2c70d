import LogosPluginQt.Consumer

namespace LogosPluginQt
open Interleaving ConsumerProg
set_option autoImplicit true

inductive ConsumerPhase where
  | start (i : Identity)
  | minting (i : Identity)
  | minted (i : Identity) (c : Token)
  | registered (i : Identity) (c : Token)
  | cleared (i : Identity) (c : Token)
  | finished (adopted : Bool)
  | adopting
  | exchanging (i : Identity) (k : Key)
  | done
  | logged

namespace ConsumerPhase

/-- The phases a call may return from, and with which answer. Between an accepted
registration and the adoption of its credential there is no way out. -/
def mayReturn : ConsumerPhase → Bool → Bool
  | .start _, ok | .minted _ _, ok | .finished false, ok => !ok
  | .finished true, _ => true
  | .adopting, ok | .done, ok => ok
  | _, _ => false

def next : ConsumerPhase → (a : ConsumerAction) → a.Ans → Option ConsumerPhase
  | .start i, .isolateIdentity j, r | .start i, .isIsolated j, r =>
    if j = i then some (if r = true then .minting i else .start i) else none
  | .minting i, .mintCredential j, c => if j = i then some (.minted i c) else none
  | .minted i c, .getClient _ _, _ | .minted i c, .getToken _ _, _ => some (.minted i c)
  | .minted i c, .informModuleToken _ j d, r =>
    if j = i ∧ d = c then some (if r = true then .registered i c else .minted i c) else none
  | .registered i c, .resetIdentity j, _ => if j = i then some (.cleared i c) else none
  | .registered i c, .adoptCredentialFor j d, r | .cleared i c, .adoptCredentialFor j d, r =>
    if j = i ∧ d = c then some (.finished r) else none
  | .adopting, .adoptCredential store _, _ => if store = .ring then some .done else none
  | .exchanging i k, .saveToken store k' _, _ =>
    if store = .isolated i ∧ k' = k then some .done else none
  | κ, .returned ok, _ => if κ.mayReturn ok = true then some .logged else none
  | _, _, _ => none

inductive Move : ConsumerPhase → (a : ConsumerAction) → a.Ans → ConsumerPhase → Prop
  | isolate (i r) : Move (.start i) (.isolateIdentity i) r
      (if r = true then .minting i else .start i)
  | isolated (i r) : Move (.start i) (.isIsolated i) r
      (if r = true then .minting i else .start i)
  | mint (i c) : Move (.minting i) (.mintCredential i) c (.minted i c)
  | client (i c api target r) : Move (.minted i c) (.getClient api target) r (.minted i c)
  | hostToken (i c store k r) : Move (.minted i c) (.getToken store k) r (.minted i c)
  | register (i c token r) : Move (.minted i c) (.informModuleToken token i c) r
      (if r = true then .registered i c else .minted i c)
  | reset (i c r) : Move (.registered i c) (.resetIdentity i) r (.cleared i c)
  | adopt (i c r) : Move (.registered i c) (.adoptCredentialFor i c) r (.finished r)
  | readopt (i c r) : Move (.cleared i c) (.adoptCredentialFor i c) r (.finished r)
  | adoptRing (c r) : Move .adopting (.adoptCredential .ring c) r .done
  | exchange (i k token r) : Move (.exchanging i k) (.saveToken (.isolated i) k token) r .done
  | log (κ ok r) : κ.mayReturn ok = true → Move κ (.returned ok) r .logged

theorem next_move {κ κ' : ConsumerPhase} {a : ConsumerAction} {r : a.Ans}
    (h : next κ a r = some κ') : Move κ a r κ' := by
  unfold next at h
  split at h
  · obtain ⟨rfl, he⟩ := Option.ite_none_right_eq_some.1 h
    obtain rfl := Option.some.inj he
    exact .isolate _ _
  · obtain ⟨rfl, he⟩ := Option.ite_none_right_eq_some.1 h
    obtain rfl := Option.some.inj he
    exact .isolated _ _
  · obtain ⟨rfl, he⟩ := Option.ite_none_right_eq_some.1 h
    obtain rfl := Option.some.inj he
    exact .mint _ _
  · obtain rfl := Option.some.inj h
    exact .client ..
  · obtain rfl := Option.some.inj h
    exact .hostToken ..
  · obtain ⟨⟨rfl, rfl⟩, he⟩ := Option.ite_none_right_eq_some.1 h
    obtain rfl := Option.some.inj he
    exact .register ..
  · obtain ⟨rfl, he⟩ := Option.ite_none_right_eq_some.1 h
    obtain rfl := Option.some.inj he
    exact .reset ..
  · obtain ⟨⟨rfl, rfl⟩, he⟩ := Option.ite_none_right_eq_some.1 h
    obtain rfl := Option.some.inj he
    exact .adopt ..
  · obtain ⟨⟨rfl, rfl⟩, he⟩ := Option.ite_none_right_eq_some.1 h
    obtain rfl := Option.some.inj he
    exact .readopt ..
  · obtain ⟨rfl, he⟩ := Option.ite_none_right_eq_some.1 h
    obtain rfl := Option.some.inj he
    exact .adoptRing ..
  · obtain ⟨⟨rfl, rfl⟩, he⟩ := Option.ite_none_right_eq_some.1 h
    obtain rfl := Option.some.inj he
    exact .exchange ..
  · obtain ⟨hr, he⟩ := Option.ite_none_right_eq_some.1 h
    obtain rfl := Option.some.inj he
    exact .log _ _ _ hr
  · cases h
end ConsumerPhase

open ConsumerPhase

def ConsumerOp.phase : ConsumerOp → ConsumerPhase
  | .admission i _ => .start i
  | .reissue consumerApi _ => .start (consumerApi.elim "" LogosAPI.moduleName)
  | .adopt _ _ => .adopting
  | .exchange i k _ => .exchanging i k

theorem hostCapabilityToken_follows (api : LogosAPI) (i : Identity) (c : Token) :
    Follows next (fun _ κ => κ = .minted i c) (hostCapabilityToken api) (.minted i c) := by
  unfold hostCapabilityToken
  split
  · exact fun r => ⟨_, rfl, rfl⟩
  · rfl

theorem registerAtCapability_follows (host : Option LogosAPI) (i : Identity) (c : Token) :
    Follows next (fun ok κ => κ = if ok = true then .registered i c else .minted i c)
      (registerAtCapability host i c) (.minted i c) := by
  cases host with
  | none => rfl
  | some api =>
    intro cap
    refine ⟨_, rfl, ?_⟩
    cases cap with
    | false => rfl
    | true =>
      apply follows_bind (p := hostCapabilityToken api)
      apply (hostCapabilityToken_follows api i c).mono
      rintro token κ rfl
      by_cases ht : token = ""
      · simp only [ht]
        rfl
      · simp only [if_neg ht]
        intro accepted
        refine ⟨_, if_pos ⟨rfl, rfl⟩, ?_⟩
        cases accepted <;> rfl

theorem forIdentity_follows (i : Identity) :
    Follows next (fun api κ => κ = if api.isSome then .minting i else .start i)
      (LogosAPI.forIdentity i) (.start i) := by
  by_cases hi : i = ""
  · simp only [LogosAPI.forIdentity, if_pos hi]
    rfl
  · simp only [LogosAPI.forIdentity, if_neg hi]
    intro ok
    refine ⟨_, if_pos rfl, ?_⟩
    cases ok <;> rfl

theorem admitConsumer_follows (i : Identity) (host : Option LogosAPI) :
    Follows next (fun x κ => κ.mayReturn x.isSome = true) (admitConsumer i host)
      (.start i) := by
  by_cases hi : i = ""
  · simp only [admitConsumer, if_pos hi]
    rfl
  · simp only [admitConsumer, if_neg hi]
    apply follows_bind
    apply (forIdentity_follows i).mono
    rintro api κ rfl
    cases api with
    | none => rfl
    | some api =>
      intro c
      refine ⟨_, if_pos rfl, ?_⟩
      apply follows_bind (p := registerAtCapability host i c)
      apply (registerAtCapability_follows host i c).mono
      rintro registered κ rfl
      cases registered with
      | false => rfl
      | true =>
        intro adopted
        refine ⟨_, if_pos ⟨rfl, rfl⟩, ?_⟩
        cases adopted <;> rfl

theorem reissueConsumerCredential_follows (consumer host : Option LogosAPI) :
    Follows next (fun x κ => κ.mayReturn (decide (x ≠ "")) = true)
      (reissueConsumerCredential consumer host)
      (.start (consumer.elim "" LogosAPI.moduleName)) := by
  cases consumer with
  | none => rfl
  | some api =>
    by_cases hi : api.moduleName = ""
    · simp only [reissueConsumerCredential, if_pos hi]
      rfl
    · simp only [reissueConsumerCredential, if_neg hi]
      intro isolated
      refine ⟨_, if_pos rfl, ?_⟩
      cases isolated with
      | false => rfl
      | true =>
        intro c
        refine ⟨_, if_pos rfl, ?_⟩
        apply follows_bind (p := registerAtCapability host api.moduleName c)
        apply (registerAtCapability_follows host api.moduleName c).mono
        rintro registered κ rfl
        cases registered with
        | false => rfl
        | true =>
          intro _
          refine ⟨_, if_pos rfl, ?_⟩
          intro adopted
          refine ⟨_, if_pos ⟨rfl, rfl⟩, ?_⟩
          cases adopted <;> rfl

theorem adoptConsumerCredential_follows (consumer : Option LogosAPI) (c : Token) :
    Follows next (fun _ κ => κ.mayReturn true = true) (adoptConsumerCredential consumer c)
      .adopting := by
  cases consumer with
  | none => rfl
  | some api =>
    by_cases hc : c = ""
    · simp only [adoptConsumerCredential, if_pos hc]
      rfl
    · simp only [adoptConsumerCredential, if_neg hc]
      cases api.getTokenManager with
      | none => rfl
      | some store =>
        by_cases hs : store = .ring
        · subst store
          simp only [ne_eq, not_true_eq_false, ↓reduceIte]
          exact fun _ => ⟨.done, rfl, rfl⟩
        · simp only [ne_eq, hs, not_false_eq_true, ↓reduceIte]
          rfl

theorem ConsumerOp.call_follows (op : ConsumerOp) :
    Follows next (fun _ κ => κ = .logged) op.call op.phase := by
  have logs {ok : Bool} {κ : ConsumerPhase} (h : κ.mayReturn ok = true) :
      Follows next (fun _ κ' => κ' = .logged) (returned ok) κ := by
    intro _
    exact ⟨.logged, by cases κ <;> simp only [next, h, ↓reduceIte], rfl⟩
  cases op with
  | admission i host =>
    apply follows_bind
    apply follows_bind
    exact (admitConsumer_follows i host).mono fun _ _ => logs
  | reissue consumer host =>
    apply follows_bind
    apply follows_bind
    exact (reissueConsumerCredential_follows consumer host).mono fun _ _ => logs
  | adopt consumer c =>
    apply follows_bind
    apply follows_bind
    exact (adoptConsumerCredential_follows consumer c).mono fun _ _ => logs
  | exchange i k token => exact fun _ => ⟨_, if_pos ⟨rfl, rfl⟩, logs rfl⟩

end LogosPluginQt
