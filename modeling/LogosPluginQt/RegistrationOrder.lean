import LogosPluginQt.RegistrationSteps

namespace LogosPluginQt
open Interleaving LogosAPIProvider ProviderPhase
set_option autoImplicit true

section
variable {σ V : Type} {tm : TokenManager σ} {w w' : ProviderWorld σ V} {κ κ' : ProviderPhase}

/-- The running call holds what its phase says, the calls below it wait in module code. -/
def FramesHold (tm : TokenManager σ) (w : ProviderWorld σ V) : List ProviderPhase → Prop
  | [] => True
  | κ :: rest => κ.Holds tm w ∧ ∀ κ' ∈ rest, κ'.Waiting w

variable (tm w) in
structure ProviderInvariant (φ : Nat → List ProviderPhase) : Prop where
  alone : ∀ t, t ≠ 0 → φ t = []
  bookkeeping : Bookkeeping w
  guarded : ∀ proxy, w.provider.moduleProxy = some proxy →
    proxy.provider ∈ w.initialized ∨ Guarded proxy.provider (φ 0)
  frames : FramesHold tm w (φ 0)

theorem ProviderPhase.Waiting.holds (h : κ.Waiting w) : κ.Holds tm w := by
  cases κ with
  | checked => trivial
  | announced p => exact h
  | _ => cases h

theorem ProviderPhase.Waiting.mono (h : κ.Waiting w)
    (hw : w.provider.moduleProxy.isSome = true → w'.provider.moduleProxy.isSome = true) :
    κ.Waiting w' := by
  cases κ with
  | checked => trivial
  | announced p => exact hw h
  | _ => cases h

theorem not_starting_of_mayReturn {q : ProviderRef} (h : κ.mayReturn) : ¬ κ.Starting q := by
  cases κ with
  | proxied | seeded | announcing | announced => cases h
  | _ => exact id

theorem waiting_of_callsModule {a : ProviderAction V} (ha : a.callsModule = true)
    (hκ : κ.Holds tm w) (hnext : ∀ r, ∃ κ', next κ a r = some κ') : κ.Waiting w := by
  cases a with
  | createProviderObject o =>
    obtain ⟨κ', hn⟩ := hnext none
    cases next_move hn with
    | create => trivial
  | init p =>
    obtain ⟨κ', hn⟩ := hnext ()
    cases next_move hn with
    | init => exact hκ
  | _ => cases ha

variable {φ : Nat → List ProviderPhase} {rest : List ProviderPhase} {t : Nat}

theorem ProviderInvariant.thread (h : ProviderInvariant tm w φ) (hφ : φ t = κ :: rest) :
    t = 0 := by
  by_contra ht
  rw [h.alone t ht] at hφ
  cases hφ

theorem ProviderInvariant.update {κs : List ProviderPhase}
    (halone : ∀ t, t ≠ 0 → φ t = []) (hb : Bookkeeping w)
    (hg : ∀ proxy, w.provider.moduleProxy = some proxy →
      proxy.provider ∈ w.initialized ∨ Guarded proxy.provider κs)
    (hf : FramesHold tm w κs) : ProviderInvariant tm w (Function.update φ 0 κs) where
  alone t ht := by
    rw [Function.update_of_ne ht]
    exact halone t ht
  bookkeeping := hb
  guarded := by simpa only [Function.update_self] using hg
  frames := by simpa only [Function.update_self] using hf

theorem ProviderInvariant.run (h : ProviderInvariant tm w φ) (hφ : φ 0 = κ :: rest)
    (hE : RegistrationStep tm κ κ' w w') :
    ProviderInvariant tm w' (Function.update φ 0 (κ' :: rest)) := by
  have hf := h.frames
  rw [hφ] at hf
  refine .update h.alone hE.bookkeeping (fun proxy' hp => ?_)
    ⟨hE.holds, fun κ'' hmem => (hf.2 κ'' hmem).mono hE.present⟩
  obtain ⟨proxy, hproxy, he⟩ | hstart := hE.proxy proxy' hp
  · rw [← he]
    have hg := h.guarded proxy hproxy
    rw [hφ] at hg
    obtain hinit | hstart | ⟨hidle, hrest⟩ := hg
    · exact .inl (hE.initialized _ hinit)
    · obtain hstart' | hinit := hE.starting _ hstart
      · exact .inr (.inl hstart')
      · exact .inl hinit
    · exact .inr (.inr ⟨hE.idle hidle (Option.isSome_of_mem hproxy), hrest⟩)
  · exact .inr (.inl hstart)

theorem ProviderInvariant.leave (h : ProviderInvariant tm w φ) (hφ : φ 0 = κ :: rest)
    (hκ : κ.mayReturn) : ProviderInvariant tm w (Function.update φ 0 rest) := by
  have hf := h.frames
  rw [hφ] at hf
  refine .update h.alone h.bookkeeping (fun proxy hp => ?_) ?_
  · have hg := h.guarded proxy hp
    rw [hφ] at hg
    obtain hinit | hstart | ⟨_, hrest⟩ := hg
    · exact .inl hinit
    · exact absurd hstart (not_starting_of_mayReturn hκ)
    · exact .inr hrest
  · cases rest with
    | nil => trivial
    | cons κ' rest =>
      obtain ⟨hκ', hrest⟩ := List.forall_mem_cons.1 hf.2
      exact ⟨hκ'.holds, hrest⟩

theorem ProviderInvariant.enter (h : ProviderInvariant tm w φ)
    (hφ : ∀ κ ∈ φ 0, κ.Waiting w) :
    ProviderInvariant tm w (Function.update φ 0 (.start :: φ 0)) := by
  refine .update h.alone h.bookkeeping (fun proxy hp => ?_) ⟨trivial, hφ⟩
  obtain hinit | hg := h.guarded proxy hp
  · exact .inl hinit
  · exact .inr (.inr ⟨trivial, hg⟩)

theorem provider_invariant (tm : TokenManager σ) (hs : String → String) :
    PhaseInvariant (providerSystem (V := V) tm hs) next (fun _ κ => κ.mayReturn)
      (ProviderInvariant tm) where
  run h hφ he hn := by
    obtain rfl := h.thread hφ
    have hf := h.frames
    rw [hφ] at hf
    exact h.run hφ (.of_move h.bookkeeping hf.1 (next_move hn) he)
  leave h hφ hκ := by
    obtain rfl := h.thread hφ
    exact h.leave hφ hκ
  enter h hφ he := by
    obtain ⟨rfl, rfl, _, op, rfl⟩ := he
    refine ⟨.start, op.prog_follows hs, ?_⟩
    rw [← hφ]
    exact h.enter (hφ ▸ nofun)
  nest h hφ hallowed he := by
    obtain ⟨rfl, rfl, ha, op, rfl⟩ := he
    have hf := h.frames
    rw [hφ] at hf
    refine ⟨.start, op.prog_follows hs, h.enter ?_⟩
    rw [hφ]
    exact List.forall_mem_cons.2 ⟨waiting_of_callsModule (ha _ rfl) hf.1 hallowed, hf.2⟩

def ProviderWorld.initial (n : Nat) (tokens : σ) (authToken : Option Token) :
    ProviderWorld σ V where
  provider := { transports := n }
  tokens := tokens
  authToken := authToken

theorem provider_reachable {hs : String → String} {n : Nat} {s : σ} {authToken : Option Token}
    {c : Config (ProviderAction.Ans (V := V)) Bool (ProviderWorld σ V)}
    (h : Reachable (providerSystem tm hs) (.initial n s authToken) c) :
    ∃ φ, Tracks next (fun _ κ => κ.mayReturn) c φ ∧ ProviderInvariant tm c.shared φ := by
  refine (provider_invariant tm hs).reachable ?_ h
  exact ⟨fun _ _ => rfl, ⟨rfl, nofun, rfl, nofun⟩, nofun, trivial⟩

/-- The call on top of the thread is about to offer a surface to a transport. -/
def Publishing (c : Config (ProviderAction.Ans (V := V)) Bool (ProviderWorld σ V))
    (surface : Surface) : Prop :=
  ∃ t name resume rest, c.stack 0 = .act (.publishObject t name surface) resume :: rest

/-- What is promised wherever the calls on a provider have come to. -/
structure RegistrationSafe (tm : TokenManager σ)
    (c : Config (ProviderAction.Ans (V := V)) Bool (ProviderWorld σ V)) : Prop where
  one_proxy : c.shared.provider.proxiesCreated ≤ 1
  served : (∀ p ∈ c.shared.published, c.shared.provider.Serves p.proxy) ∧
    ∀ surface, Publishing c surface →
      c.shared.provider.Serves (c.shared.provider.served surface)
  validated : c.shared.published ≠ [] ∨ (∃ surface, Publishing c surface) →
    ∃ proxy, c.shared.provider.moduleProxy = some proxy ∧
      proxy.validator = c.shared.lastValidator
  after_init : Publishing c .business → ∃ proxy, c.shared.provider.moduleProxy = some proxy ∧
    proxy.provider ∈ c.shared.initialized
  after_anchor : Publishing c .handshake → Anchored tm c.shared
  seed_keeps : ∀ w', providerExec tm 0 c.shared .seedHandshakeTrustAnchor () w' → ∀ r k,
    tm.getToken c.shared.tokens r k ≠ "" →
    tm.getToken w'.tokens r k = tm.getToken c.shared.tokens r k

/-- Where a surface is about to be published, the running call is in the phase for it. -/
theorem publishing_phase {c : Config (ProviderAction.Ans (V := V)) Bool (ProviderWorld σ V)}
    {surface : Surface} (hc : Tracks next (fun _ κ => κ.mayReturn) c φ)
    (h : Publishing c surface) :
    ∃ p rest, φ 0 = (if surface = .handshake then .announcing p else .publishing p) :: rest := by
  obtain ⟨t, name, resume, rest, ht⟩ := h
  obtain ⟨κ, κs, hφ, hκ, _⟩ := hc.cons ht
  obtain ⟨κ', hn, _⟩ := hκ false
  cases next_move hn with
  | announce p => exact ⟨p, κs, hφ⟩
  | publish p => exact ⟨p, κs, hφ⟩

theorem ProviderInvariant.publishing
    {c : Config (ProviderAction.Ans (V := V)) Bool (ProviderWorld σ V)} {surface : Surface}
    (h : ProviderInvariant tm c.shared φ) (hc : Tracks next (fun _ κ => κ.mayReturn) c φ)
    (hpub : Publishing c surface) : ∃ p,
    (if surface = .handshake then .announcing p else .publishing p : ProviderPhase).Holds tm
      c.shared := by
  obtain ⟨p, rest, hφ⟩ := publishing_phase hc hpub
  have hf := h.frames
  rw [hφ] at hf
  exact ⟨p, hf.1⟩

theorem ProviderInvariant.serves
    {c : Config (ProviderAction.Ans (V := V)) Bool (ProviderWorld σ V)} {surface : Surface}
    (h : ProviderInvariant tm c.shared φ) (hc : Tracks next (fun _ κ => κ.mayReturn) c φ)
    (hpub : Publishing c surface) :
    c.shared.provider.Serves (c.shared.provider.served surface) := by
  obtain ⟨p, hp⟩ := h.publishing hc hpub
  cases surface with
  | handshake => exact hp.1
  | business => exact ⟨Option.isSome_map.trans hp, rfl⟩

/-- Registration exposes its surfaces in a safe order, whatever is called in whatever order. -/
theorem registration_safe (tm : TokenManager σ) {hs : String → String} {n : Nat} {s : σ}
    {authToken : Option Token}
    {c : Config (ProviderAction.Ans (V := V)) Bool (ProviderWorld σ V)}
    (h : Reachable (providerSystem tm hs) (.initial n s authToken) c) :
    RegistrationSafe tm c := by
  obtain ⟨φ, hc, hI⟩ := provider_reachable h
  have hvalidator (hp : c.shared.provider.moduleProxy.isSome = true) :
      ∃ proxy, c.shared.provider.moduleProxy = some proxy ∧
        proxy.validator = c.shared.lastValidator := by
    obtain ⟨proxy, hproxy⟩ := Option.isSome_iff_exists.1 hp
    exact ⟨proxy, hproxy, hI.bookkeeping.validator proxy hproxy⟩
  refine ⟨?_, ⟨hI.bookkeeping.published, fun _ => hI.serves hc⟩, fun hpub => hvalidator ?_,
    fun hpub => ?_, fun hpub => ?_, fun w' he r k hk => ?_⟩
  · rw [hI.bookkeeping.created]
    split <;> decide
  · obtain hpub | ⟨surface, hpub⟩ := hpub
    · obtain ⟨p, hp⟩ := List.exists_mem_of_ne_nil _ hpub
      exact (hI.bookkeeping.published p hp).present
    · exact (hI.serves hc hpub).present
  · obtain ⟨p, rest, hφ⟩ := publishing_phase hc hpub
    obtain ⟨proxy, hproxy⟩ := Option.isSome_iff_exists.1 (hI.serves hc hpub).present
    have hg := hI.guarded proxy hproxy
    rw [hφ] at hg
    obtain hinit | hstart | ⟨hidle, _⟩ := hg
    · exact ⟨proxy, hproxy, hinit⟩
    · cases hstart
    · cases hidle
  · obtain ⟨p, hp⟩ := hI.publishing hc hpub
    exact hp.2
  · obtain rfl := he
    exact seedHandshakeTrustAnchor_keeps _ _ r k hk

end

/-- A host whose ring is still empty, about to register its module on one transport. -/
def registeringWorld : ProviderWorld TokenManager.Tables Nat :=
  .initial 1 ⟨[], fun _ _ => ""⟩ (some "host")

theorem registration_safe_handshake :
    ∃ c, Publishing c .handshake ∧ RegistrationSafe (V := Nat) .tables c := by
  let register : ProviderProg Nat Bool :=
    (ProviderOp.registerProvider "m" (some (.native 0))).prog id
  have hrun : ∃ p w', Advances (providerExec .tables 0) registeringWorld register
      (.act (.publishObject 0 "m" .handshake) p) w' :=
    ⟨_, _, .act (r := false) ⟨rfl, rfl⟩ (.act (r := ()) rfl (.act (r := ()) rfl
      (.act (r := ()) rfl (.act (r := 1) ⟨rfl, rfl⟩ (.refl _ _)))))⟩
  obtain ⟨p, w', hrun⟩ := hrun
  have h₀ := Reachable.refl (providerSystem .tables id) registeringWorld
  have h₁ := h₀.step (.enter (t := 0) (p := register) rfl ⟨rfl, rfl, nofun, _, rfl⟩)
  have h₂ := h₁.advance (t := 0) (p := register) rfl hrun
  exact ⟨_, ⟨0, "m", p, [], rfl⟩, registration_safe .tables h₂⟩

end LogosPluginQt
