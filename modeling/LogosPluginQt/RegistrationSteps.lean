import LogosPluginQt.ProviderPhases

namespace LogosPluginQt
open Interleaving LogosAPIProvider ProviderPhase
set_option autoImplicit true

section
variable {σ V : Type} (tm : TokenManager σ) (w : ProviderWorld σ V)

/-- A token stamped by the host is under both keys of the trust anchor, or others are. -/
def Anchored : Prop :=
  ∀ hostToken, w.authToken = some hostToken → hostToken ≠ "" →
    ∀ k ∈ trustAnchorKeys, tm.getToken w.tokens .ring k ≠ ""

def LogosAPIProvider.Serves (p : LogosAPIProvider V) (proxy : Option Nat) : Prop :=
  proxy.isSome = true ∧ proxy = p.moduleProxy.map ModuleProxy.id

theorem LogosAPIProvider.Serves.present {p : LogosAPIProvider V} {proxy : Option Nat}
    (h : p.Serves proxy) : p.moduleProxy.isSome = true := by
  obtain ⟨hsome, rfl⟩ := h
  exact Option.isSome_map.symm.trans hsome

structure Bookkeeping : Prop where
  pending : w.provider.pendingValidator = w.lastValidator
  validator : ∀ proxy, w.provider.moduleProxy = some proxy → proxy.validator = w.lastValidator
  created : w.provider.proxiesCreated = if w.provider.moduleProxy.isSome = true then 1 else 0
  published : ∀ p ∈ w.published, w.provider.Serves p.proxy

namespace ProviderPhase

def Holds : ProviderPhase → Prop
  | .proxied _ | .announced _ | .initialized _ | .publishing _ =>
    w.provider.moduleProxy.isSome = true
  | .seeded _ => w.provider.moduleProxy.isSome = true ∧ Anchored tm w
  | .announcing _ => w.provider.Serves w.provider.handshakeProxy ∧ Anchored tm w
  | _ => True

/-- Between the creation of the proxy of `q` and the return of its initializer. -/
def Starting (q : ProviderRef) : ProviderPhase → Prop
  | .proxied p | .seeded p | .announcing p | .announced p => p = q
  | _ => False

def Idle : ProviderPhase → Prop
  | .start | .done => True
  | _ => False

def Waiting : ProviderPhase → Prop
  | .checked => True
  | .announced _ => w.provider.moduleProxy.isSome = true
  | _ => False

end ProviderPhase

/-- The initializer of `q` runs, and every call made since is idle. -/
def Guarded (q : ProviderRef) : List ProviderPhase → Prop
  | [] => False
  | κ :: rest => κ.Starting q ∨ κ.Idle ∧ Guarded q rest

variable {tm w} {w' : ProviderWorld σ V} {κ κ' : ProviderPhase}

@[simp] theorem prepareHandshake_moduleProxy (p : LogosAPIProvider V) (q : ProviderRef) :
    (p.prepareHandshake q).moduleProxy =
      some (p.moduleProxy.getD ⟨p.proxiesCreated, q, p.pendingValidator⟩) := by
  cases hm : p.moduleProxy with
  | some proxy => simp only [prepareHandshake, hm, Option.getD_some]
  | none =>
    cases hv : p.pendingValidator <;>
      simp only [prepareHandshake, createModuleProxy, newModuleProxy, applyPendingValidator, hm, hv,
        Option.map_some, Option.getD_none]

@[simp] theorem prepareHandshake_pendingValidator (p : LogosAPIProvider V) (q : ProviderRef) :
    (p.prepareHandshake q).pendingValidator = p.pendingValidator := by
  cases hm : p.moduleProxy with
  | some proxy => simp only [prepareHandshake, hm]
  | none =>
    cases hv : p.pendingValidator <;>
      simp only [prepareHandshake, createModuleProxy, newModuleProxy, applyPendingValidator, hm, hv]

@[simp] theorem prepareHandshake_proxiesCreated (p : LogosAPIProvider V) (q : ProviderRef) :
    (p.prepareHandshake q).proxiesCreated =
      if p.moduleProxy.isSome = true then p.proxiesCreated else p.proxiesCreated + 1 := by
  cases hm : p.moduleProxy with
  | some proxy => simp only [prepareHandshake, hm, Option.isSome_some, ↓reduceIte]
  | none =>
    cases hv : p.pendingValidator <;>
      simp only [prepareHandshake, createModuleProxy, newModuleProxy, applyPendingValidator, hm, hv,
        Option.isSome_none, Bool.false_eq_true, ↓reduceIte]

@[simp] theorem prepareProvider_moduleProxy (p : LogosAPIProvider V) (q : ProviderRef) :
    (p.prepareProvider q).moduleProxy =
      let proxy := p.moduleProxy.getD ⟨p.proxiesCreated, q, none⟩
      some ⟨proxy.id, proxy.provider, p.pendingValidator.or proxy.validator⟩ := by
  cases hm : p.moduleProxy <;> cases hv : p.pendingValidator <;>
    simp only [prepareProvider, createModuleProxy, newModuleProxy, applyPendingValidator, hm, hv,
      Option.map_some, Option.getD_some, Option.getD_none, Option.some_or, Option.none_or]

@[simp] theorem prepareProvider_pendingValidator (p : LogosAPIProvider V) (q : ProviderRef) :
    (p.prepareProvider q).pendingValidator = p.pendingValidator := by
  cases hm : p.moduleProxy <;> cases hv : p.pendingValidator <;>
    simp only [prepareProvider, createModuleProxy, newModuleProxy, applyPendingValidator, hm, hv]

@[simp] theorem prepareProvider_proxiesCreated (p : LogosAPIProvider V) (q : ProviderRef) :
    (p.prepareProvider q).proxiesCreated =
      if p.moduleProxy.isSome = true then p.proxiesCreated else p.proxiesCreated + 1 := by
  cases hm : p.moduleProxy <;> cases hv : p.pendingValidator <;>
    simp only [prepareProvider, createModuleProxy, newModuleProxy, applyPendingValidator, hm, hv,
      Option.isSome_some, Option.isSome_none, Bool.false_eq_true, ↓reduceIte]

theorem seedKey_token (hostToken : Token) (s : σ) (key : Key) (r : StoreRef) (k : Key) :
    tm.getToken (seedKey tm hostToken s key) r k =
      if r = .ring ∧ k = key ∧ tm.getToken s .ring k = "" then hostToken
      else tm.getToken s r k := by
  unfold seedKey
  by_cases he : tm.getToken s .ring key = ""
  · have hring : ∀ i, StoreRef.ring = .isolated i → tm.isIsolated s i = true := nofun
    rw [if_pos he, tm.save_token hring]
    by_cases hr : r = .ring ∧ k = key
    · obtain ⟨rfl, rfl⟩ := hr
      simp only [he, and_self, ↓reduceIte]
    · rw [if_neg hr, if_neg fun h => hr ⟨h.1, h.2.1⟩]
  · rw [if_neg he, if_neg]
    rintro ⟨_, rfl, hk⟩
    exact he hk

theorem seedKeys_token (hostToken : Token) (keys : List Key) (s : σ) (r : StoreRef) (k : Key) :
    tm.getToken (keys.foldl (seedKey tm hostToken) s) r k =
      if r = .ring ∧ k ∈ keys ∧ tm.getToken s .ring k = "" then hostToken
      else tm.getToken s r k := by
  induction keys generalizing s with
  | nil => simp only [List.foldl_nil, List.not_mem_nil, false_and, and_false, ↓reduceIte]
  | cons key keys ih =>
    rw [List.foldl_cons, ih, seedKey_token, seedKey_token]
    by_cases hr : r = .ring
    · subst r
      by_cases hk : k = key
      · subst k
        by_cases he : tm.getToken s .ring key = ""
        · simp only [he, true_and, ↓reduceIte, List.mem_cons, true_or, and_self, ite_self]
        · simp only [he, and_false, ↓reduceIte]
      · simp only [hk, false_and, and_false, ↓reduceIte, List.mem_cons, false_or]
    · simp only [hr, false_and, ↓reduceIte]

theorem seedHandshakeTrustAnchor_keeps (authToken : Option Token) (s : σ) (r : StoreRef)
    (k : Key) (h : tm.getToken s r k ≠ "") :
    tm.getToken (seedHandshakeTrustAnchor tm authToken s) r k = tm.getToken s r k := by
  cases authToken with
  | none => rfl
  | some hostToken =>
    simp only [seedHandshakeTrustAnchor]
    split
    · rfl
    · rw [seedKeys_token]
      apply if_neg
      rintro ⟨rfl, _, he⟩
      exact h he

theorem anchored_seed :
    Anchored tm (w.withTokens (seedHandshakeTrustAnchor tm w.authToken w.tokens)) := by
  intro hostToken ha hne k hk
  have ha' : w.authToken = some hostToken := ha
  simp only [ProviderWorld.withTokens, ha', seedHandshakeTrustAnchor, if_neg hne,
    seedKeys_token, hk, true_and]
  split
  · exact hne
  next he => exact he

theorem Bookkeeping.keep (h : Bookkeeping w)
    (hm : w'.provider.moduleProxy = w.provider.moduleProxy)
    (hp : w'.provider.pendingValidator = w.provider.pendingValidator)
    (hl : w'.lastValidator = w.lastValidator)
    (hc : w'.provider.proxiesCreated = w.provider.proxiesCreated)
    (hpub : ∀ p ∈ w'.published, p ∈ w.published ∨ w.provider.Serves p.proxy) :
    Bookkeeping w' where
  pending := by rw [hp, hl, h.pending]
  validator proxy hproxy := by
    rw [hl]
    exact h.validator proxy (hm ▸ hproxy)
  created := by rw [hc, hm, h.created]
  published p hp := by
    rw [LogosAPIProvider.Serves, hm]
    exact (hpub p hp).elim (h.published p) id

/-- A proxy is created only where there was none, and carries the last validator. -/
theorem Bookkeeping.prepare (h : Bookkeeping w) {p : LogosAPIProvider V}
    {proxy : ModuleProxy V} (hm : p.moduleProxy = some proxy)
    (hp : p.pendingValidator = w.provider.pendingValidator)
    (hv : proxy.validator = w.lastValidator)
    (hc : p.proxiesCreated = if w.provider.moduleProxy.isSome = true then
      w.provider.proxiesCreated else w.provider.proxiesCreated + 1)
    (hid : ∀ old, w.provider.moduleProxy = some old → old.id = proxy.id) :
    Bookkeeping (w.withProvider p) where
  pending := hp.trans h.pending
  validator proxy' hproxy := by
    obtain rfl := Option.some.inj (hm.symm.trans hproxy)
    exact hv
  created := by
    simp only [ProviderWorld.withProvider, hm, hc, h.created]
    cases w.provider.moduleProxy <;> rfl
  published publication hpublication := by
    obtain ⟨hsome, hproxy⟩ := h.published publication hpublication
    refine ⟨hsome, hproxy.trans ?_⟩
    obtain ⟨old, hold⟩ : ∃ old, w.provider.moduleProxy = some old := by
      rw [hproxy, Option.isSome_map] at hsome
      exact Option.isSome_iff_exists.1 hsome
    simp only [ProviderWorld.withProvider, hold, hm, Option.map_some, hid old hold]

theorem Bookkeeping.setTokenValidator (h : Bookkeeping w) (v : Option V) :
    Bookkeeping { w.withProvider (w.provider.setTokenValidator v) with lastValidator := v } where
  pending := rfl
  validator proxy hproxy := by
    obtain ⟨_, _, rfl⟩ := Option.map_eq_some_iff.1 hproxy
    rfl
  created := by
    simp only [ProviderWorld.withProvider, LogosAPIProvider.setTokenValidator,
      Option.isSome_map, h.created]
  published p hp := by
    obtain ⟨hsome, hproxy⟩ := h.published p hp
    refine ⟨hsome, hproxy.trans ?_⟩
    simp only [ProviderWorld.withProvider, LogosAPIProvider.setTokenValidator, Option.map_map]
    rfl

variable (tm) in
structure RegistrationStep (κ κ' : ProviderPhase) (w w' : ProviderWorld σ V) : Prop where
  bookkeeping : Bookkeeping w'
  holds : κ'.Holds tm w'
  initialized : ∀ p ∈ w.initialized, p ∈ w'.initialized
  present : w.provider.moduleProxy.isSome = true → w'.provider.moduleProxy.isSome = true
  proxy : ∀ proxy', w'.provider.moduleProxy = some proxy' →
    (∃ proxy, w.provider.moduleProxy = some proxy ∧ proxy.provider = proxy'.provider) ∨
      κ'.Starting proxy'.provider
  starting : ∀ q, κ.Starting q → κ'.Starting q ∨ q ∈ w'.initialized
  idle : κ.Idle → w.provider.moduleProxy.isSome = true → κ'.Idle

theorem RegistrationStep.keep (hm : w'.provider.moduleProxy = w.provider.moduleProxy)
    (hw : Bookkeeping w') (hinit : w'.initialized = w.initialized) (hκ : κ'.Holds tm w')
    (hs : ∀ q, κ.Starting q → κ'.Starting q) (hi : κ.Idle → κ'.Idle) :
    RegistrationStep tm κ κ' w w' where
  bookkeeping := hw
  holds := hκ
  initialized _ hp := hinit ▸ hp
  present hp := hm ▸ hp
  proxy proxy' hproxy := .inl ⟨proxy', hm ▸ hproxy, rfl⟩
  starting q hq := .inl (hs q hq)
  idle hκ _ := hi hκ

theorem RegistrationStep.of_withTokens {s : σ} (h : Bookkeeping w)
    (hκ : κ'.Holds tm (w.withTokens s)) (hs : ∀ q, κ.Starting q → κ'.Starting q)
    (hi : κ.Idle → κ'.Idle) : RegistrationStep tm κ κ' w (w.withTokens s) :=
  .keep rfl (h.keep rfl rfl rfl rfl fun _ => .inl) rfl hκ hs hi

theorem RegistrationStep.of_withProvider {p : LogosAPIProvider V} (h : Bookkeeping w)
    (hm : p.moduleProxy = w.provider.moduleProxy)
    (hp : p.pendingValidator = w.provider.pendingValidator)
    (hc : p.proxiesCreated = w.provider.proxiesCreated)
    (hκ : κ'.Holds tm (w.withProvider p)) (hs : ∀ q, κ.Starting q → κ'.Starting q)
    (hi : κ.Idle → κ'.Idle) : RegistrationStep tm κ κ' w (w.withProvider p) :=
  .keep hm (h.keep hm hp rfl hc fun _ => .inl) rfl hκ hs hi

theorem RegistrationStep.of_publish {t : Nat} {name : String} {surface : Surface} {r : Bool}
    (h : Bookkeeping w) (hserves : w.provider.Serves (w.provider.served surface))
    (hκ : κ.Holds tm w) (he : providerExec tm 0 w (.publishObject t name surface) r w') :
    RegistrationStep tm κ κ w w' := by
  obtain rfl := he
  cases r with
  | false => exact .keep rfl (h.keep rfl rfl rfl rfl fun _ => .inl) rfl hκ (fun _ => id) id
  | true =>
    have hpub : ∀ p ∈ ⟨t, name, surface, w.provider.served surface⟩ :: w.published,
        p ∈ w.published ∨ w.provider.Serves p.proxy :=
      List.forall_mem_cons.2 ⟨.inr hserves, fun _ => .inl⟩
    refine .keep rfl (h.keep rfl rfl rfl rfl hpub) rfl ?_ (fun _ => id) id
    cases κ <;> exact hκ

theorem RegistrationStep.of_move {a : ProviderAction V} {r : a.Ans} (h : Bookkeeping w)
    (hκ : κ.Holds tm w) (hm : Move κ a r κ') (he : providerExec tm 0 w a r w') :
    RegistrationStep tm κ κ' w w' := by
  cases hm with
  | check r =>
    obtain ⟨hr, rfl⟩ := he
    refine ⟨h, ?_, fun _ => id, id, fun proxy hp => .inl ⟨proxy, hp, rfl⟩, nofun, fun _ hp => ?_⟩
    · cases r <;> trivial
    · rw [if_pos (hr.trans hp)]
      trivial
  | create o r =>
    obtain rfl := he
    refine .keep rfl h rfl ?_ nofun nofun
    cases r <;> trivial
  | wrap o r =>
    obtain rfl := he
    exact .of_withProvider h rfl rfl rfl trivial (fun _ => id) id
  | prepare p r =>
    obtain rfl := he
    have hproxy := prepareHandshake_moduleProxy w.provider p
    have hsome : (w.withProvider (w.provider.prepareHandshake p)).provider.moduleProxy.isSome =
        true := by simp only [ProviderWorld.withProvider, hproxy, Option.isSome_some]
    have hbooks : Bookkeeping (w.withProvider (w.provider.prepareHandshake p)) := by
      apply h.prepare hproxy (prepareHandshake_pendingValidator _ _) ?_
        (prepareHandshake_proxiesCreated _ _)
      · intro old hold
        rw [hold, Option.getD_some]
      · cases hw : w.provider.moduleProxy with
        | none => exact h.pending
        | some proxy => exact h.validator proxy hw
    refine ⟨hbooks, hsome, fun _ => id, fun _ => hsome, fun proxy' hp => ?_, nofun, nofun⟩
    obtain rfl := Option.some.inj (hproxy.symm.trans hp)
    cases hw : w.provider.moduleProxy with
    | none => exact .inr rfl
    | some proxy => exact .inl ⟨proxy, rfl, rfl⟩
  | seed p r =>
    obtain rfl := he
    exact .of_withTokens h ⟨hκ, anchored_seed⟩ (fun _ => id) nofun
  | handshakeProxy p r =>
    obtain rfl := he
    exact .of_withProvider h rfl rfl rfl ⟨⟨Option.isSome_map.trans hκ.1, rfl⟩, hκ.2⟩
      (fun _ => id) nofun
  | hosts p r =>
    obtain rfl := he.2
    exact .keep rfl h rfl hκ (fun _ => id) nofun
  | announce p t name r =>
    have hserves : w.provider.Serves (w.provider.served .handshake) := hκ.1
    exact .of_publish h hserves hκ he
  | announced p ok name r =>
    obtain rfl := he
    have hpresent := hκ.1.present
    cases ok with
    | false => exact .keep rfl h rfl hpresent (fun _ => id) nofun
    | true => exact .of_withProvider h rfl rfl rfl hpresent (fun _ => id) nofun
  | init p r =>
    obtain rfl := he
    refine ⟨h.keep rfl rfl rfl rfl fun _ => .inl, hκ, fun _ => List.mem_cons_of_mem _, id,
      fun proxy hp => .inl ⟨proxy, hp, rfl⟩, ?_, nofun⟩
    rintro q rfl
    exact .inr (List.mem_cons_self ..)
  | reuse p r =>
    obtain rfl := he
    obtain ⟨proxy, hw⟩ := Option.isSome_iff_exists.1 hκ
    have hproxy := prepareProvider_moduleProxy w.provider p
    simp only [hw, Option.getD_some] at hproxy
    have hsome : (w.withProvider (w.provider.prepareProvider p)).provider.moduleProxy.isSome =
        true := by simp only [ProviderWorld.withProvider, hproxy, Option.isSome_some]
    have hbooks : Bookkeeping (w.withProvider (w.provider.prepareProvider p)) := by
      apply h.prepare hproxy (prepareProvider_pendingValidator _ _) ?_
        (prepareProvider_proxiesCreated _ _)
      · intro old hold
        obtain rfl := Option.some.inj (hw.symm.trans hold)
        rfl
      · rw [h.pending, h.validator proxy hw, Option.or_self]
    refine ⟨hbooks, hsome, fun _ => id, fun _ => hsome, fun proxy' hp => ?_, nofun, nofun⟩
    obtain rfl := Option.some.inj (hproxy.symm.trans hp)
    exact .inl ⟨proxy, hw, rfl⟩
  | hosts' p r =>
    obtain rfl := he.2
    exact .keep rfl h rfl hκ nofun nofun
  | publish p t name r =>
    have hserves : w.provider.Serves (w.provider.served .business) :=
      ⟨Option.isSome_map.trans hκ, rfl⟩
    exact .of_publish h hserves hκ he
  | published p ok name r =>
    obtain rfl := he
    cases ok with
    | false => exact .keep rfl h rfl hκ nofun nofun
    | true => exact .of_withProvider h rfl rfl rfl hκ nofun nofun
  | validator v r =>
    obtain rfl := he
    refine ⟨h.setTokenValidator v, trivial, fun _ => id, fun hp => ?_, fun proxy' hp => ?_,
      nofun, fun _ _ => trivial⟩
    · simpa only [ProviderWorld.withProvider, LogosAPIProvider.setTokenValidator,
        Option.isSome_map] using hp
    obtain ⟨proxy, hproxy, rfl⟩ := Option.map_eq_some_iff.1 hp
    exact .inl ⟨proxy, hproxy, rfl⟩
  | store k token r =>
    obtain rfl := he
    exact .of_withTokens h trivial nofun fun _ => trivial
  | stamp token r =>
    obtain rfl := he
    exact .keep rfl (h.keep rfl rfl rfl rfl fun _ => .inl) rfl trivial nofun fun _ => trivial
  | save m token r =>
    obtain ⟨s, rfl⟩ := he
    exact .of_withTokens h trivial nofun fun _ => trivial

end

end LogosPluginQt
