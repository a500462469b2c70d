import LogosPluginQt.RegistrationOrder

namespace LogosPluginQt
open Interleaving LogosAPIProvider
set_option autoImplicit true

section
variable {σ V : Type}

def ProviderWorld.Publishes (w : ProviderWorld σ V) (transport : Nat) (name : String) : Prop :=
  ∃ p ∈ w.published, p.transport = transport ∧ p.name = name

structure Untouched (w w' : ProviderWorld σ V) : Prop where
  moduleProxy : w'.provider.moduleProxy.isSome = w.provider.moduleProxy.isSome
  handshakeProxy : w'.provider.handshakeProxy = w.provider.handshakeProxy
  objectName : w'.provider.registeredObjectName = w.provider.registeredObjectName
  handshakeName : w'.provider.registeredHandshakeName = w.provider.registeredHandshakeName
  published : ∀ t name, w'.Publishes t name ↔ w.Publishes t name

theorem Untouched.refl (w : ProviderWorld σ V) : Untouched w w :=
  ⟨rfl, rfl, rfl, rfl, fun _ _ => Iff.rfl⟩

/-- A call of `registerObject`, with the calls that the module code in it makes, and what it
answers. -/
def Registers (tm : TokenManager σ) (handshakeObjectName : String → String) :
    ProviderWorld σ V → ProviderProg V Bool → Bool → ProviderWorld σ V → Prop :=
  NestedRuns (providerSystem tm handshakeObjectName) 0

variable {tm : TokenManager σ} {hs : String → String} {w w' w'' : ProviderWorld σ V}
  {result : Bool}

theorem providerExec_registered {a : ProviderAction V} {r : a.Ans}
    (he : providerExec tm 0 w a r w') (h : w.provider.moduleProxy.isSome = true) :
    w'.provider.moduleProxy.isSome = true := by
  cases a with
  | moduleProxy | transports =>
    obtain ⟨_, rfl⟩ := he
    exact h
  | prepareHandshake | prepareProvider =>
    obtain rfl := he
    simp [ProviderWorld.withProvider]
  | publishObject | recordHandshake | recordObject =>
    obtain rfl := he
    split <;> exact h
  | setTokenValidator v =>
    obtain rfl := he
    simpa [ProviderWorld.withProvider, setTokenValidator] using h
  | proxySaveToken =>
    obtain ⟨_, rfl⟩ := he
    exact h
  | _ =>
    obtain rfl := he
    exact h

theorem Registers.registered {p : ProviderProg V Bool} (h : Registers tm hs w p result w')
    (hw : w.provider.moduleProxy.isSome = true) : w'.provider.moduleProxy.isSome = true :=
  h.keeps providerExec_registered (fun he hI => he.2.1 ▸ hI) hw

theorem Registers.act_inv {a : ProviderAction V} {next : a.Ans → ProviderProg V Bool}
    (h : Registers tm hs w (.act a next) result w') (ha : a.callsModule = false) :
    ∃ r w₁, providerExec tm 0 w a r w₁ ∧ Registers tm hs w₁ (next r) result w' := by
  obtain ⟨w₀, r, w₁, hnone, he, hr⟩ := NestedRuns.act_inv h
  have hsame : w₀ = w := by
    apply hnone
    rintro p w₂ ⟨_, _, hcalls, _⟩
    rw [hcalls a rfl] at ha
    cases ha
  exact ⟨r, w₁, hsame ▸ he, hr⟩

theorem Registers.registerWith {name : String} {provider : ProviderRef}
    (h : Registers tm hs w (registerWith hs name provider) result w') :
    w'.provider.moduleProxy.isSome = true := by
  obtain ⟨_, w₁, he, hr⟩ := h.act_inv (a := .prepareHandshake provider) rfl
  obtain rfl := he
  exact hr.registered (by simp [ProviderWorld.withProvider])

/-- Where the call has asked for the proxy, there is one in the end: its own, or the one it
was turned away for. -/
theorem Registers.checked {next : ProviderProg V Bool}
    (h : Registers tm hs w (.act .moduleProxy fun registered =>
      if registered = true then .ret false else next) result w')
    (hnext : ∀ w₁, Registers tm hs w₁ next result w' →
      w'.provider.moduleProxy.isSome = true) :
    w'.provider.moduleProxy.isSome = true := by
  obtain ⟨registered, w₁, ⟨hregistered, rfl⟩, hr⟩ := h.act_inv (a := .moduleProxy) rfl
  cases registered with
  | true => exact hr.registered hregistered.symm
  | false => exact hnext _ hr

theorem Registers.registerProvider {name : String} {provider : ProviderRef} (hname : name ≠ "")
    (h : Registers tm hs w (registerProvider hs name (some provider)) result w') :
    w'.provider.moduleProxy.isSome = true := by
  simp only [LogosAPIProvider.registerProvider, if_neg hname] at h
  exact h.checked fun w₁ hr => hr.registerWith

theorem Registers.registerObject {name : String} {object : PluginObject} (hname : name ≠ "")
    (h : Registers tm hs w (registerObject hs name (some object)) result w') :
    w'.provider.moduleProxy.isSome = true := by
  have hwrap {w₁ : ProviderWorld σ V} (hr : Registers tm hs w₁ (.act (.wrapObject object.object)
      fun _ => LogosAPIProvider.registerWith hs name (.wrapped object.object)) result w') :
      w'.provider.moduleProxy.isSome = true := by
    obtain ⟨_, w₂, _, hr⟩ := hr.act_inv (a := .wrapObject object.object) rfl
    exact hr.registerWith
  simp only [LogosAPIProvider.registerObject, if_neg hname] at h
  refine h.checked fun w₁ hr => ?_
  cases hplugin : object.isProviderPlugin with
  | false =>
    simp only [hplugin, Bool.false_eq_true, ↓reduceIte] at hr
    exact hwrap hr
  | true =>
    simp only [hplugin, ↓reduceIte] at hr
    -- the module may have registered itself by the time it hands over its provider
    obtain ⟨_, provider, w₂, _, _, hr⟩ := NestedRuns.act_inv hr
    cases provider with
    | some n => exact Registers.registerProvider hname hr
    | none => exact hwrap hr

theorem Registers.turned_away {next : ProviderProg V Bool}
    (h : Registers tm hs w (.act .moduleProxy fun registered =>
      if registered = true then .ret false else next) result w')
    (hw : w.provider.moduleProxy.isSome = true) : result = false ∧ w' = w := by
  obtain ⟨registered, w₁, ⟨hregistered, rfl⟩, hr⟩ := h.act_inv (a := .moduleProxy) rfl
  rw [if_pos (hregistered.trans hw)] at hr
  exact hr.ret_inv

theorem Registers.refused_provider {name : String} {provider : Option ProviderRef}
    (h : Registers tm hs w (LogosAPIProvider.registerProvider hs name provider) result w')
    (hearly : provider = none ∨ name = "" ∨ w.provider.moduleProxy.isSome = true) :
    result = false ∧ w' = w := by
  cases provider with
  | none => exact h.ret_inv
  | some provider =>
    by_cases hname : name = ""
    · simp only [LogosAPIProvider.registerProvider, if_pos hname] at h
      exact h.ret_inv
    · simp only [LogosAPIProvider.registerProvider, if_neg hname] at h
      rcases hearly with hnone | hempty | hw
      · cases hnone
      · exact absurd hempty hname
      · exact h.turned_away hw

theorem Registers.refused_object {name : String} {object : Option PluginObject}
    (h : Registers tm hs w (LogosAPIProvider.registerObject hs name object) result w')
    (hearly : object = none ∨ name = "" ∨ w.provider.moduleProxy.isSome = true) :
    result = false ∧ w' = w := by
  cases object with
  | none => exact h.ret_inv
  | some object =>
    by_cases hname : name = ""
    · simp only [LogosAPIProvider.registerObject, if_pos hname] at h
      exact h.ret_inv
    · simp only [LogosAPIProvider.registerObject, if_neg hname] at h
      rcases hearly with hnone | hempty | hw
      · cases hnone
      · exact absurd hempty hname
      · exact h.turned_away hw

/-- Whatever is registered from now on is refused, and refused as already registered. -/
def LockedOut (tm : TokenManager σ) (handshakeObjectName : String → String)
    (w : ProviderWorld σ V) : Prop :=
  (∀ name object result w', Registers tm handshakeObjectName w
    (LogosAPIProvider.registerObject handshakeObjectName name object) result w' →
      result = false) ∧
  ∀ name provider result w', Registers tm handshakeObjectName w
    (LogosAPIProvider.registerProvider handshakeObjectName name provider) result w' →
      result = false

theorem lockedOut (hw : w.provider.moduleProxy.isSome = true) : LockedOut tm hs w :=
  ⟨fun _ _ _ _ h => (h.refused_object (.inr (.inr hw))).1,
    fun _ _ _ _ h => (h.refused_provider (.inr (.inr hw))).1⟩

theorem touched (h : w'.provider.moduleProxy.isSome = true)
    (hw : ¬ w.provider.moduleProxy.isSome = true) : ¬ Untouched w w' := by
  intro hu
  exact hw (hu.moduleProxy ▸ h)

theorem untouched_iff {early : Prop} (hearly : early → w' = w)
    (hpast : ¬ early → ¬ w.provider.moduleProxy.isSome = true ∧
      w'.provider.moduleProxy.isSome = true) :
    (Untouched w w' ↔ early) ∧ (¬ Untouched w w' → LockedOut tm hs w') := by
  by_cases h : early
  · obtain rfl := hearly h
    exact ⟨iff_of_true (.refl _) h, fun hu => absurd (.refl _) hu⟩
  · obtain ⟨hw, hw'⟩ := hpast h
    exact ⟨iff_of_false (touched hw' hw) h, fun _ => lockedOut hw'⟩

/-- A registration that fails leaves no trace exactly where its first checks refuse it; where
they do not, the provider will never take another one. -/
theorem failed_registration_iff (tm : TokenManager σ) (hs : String → String)
    (w w' : ProviderWorld σ V) (name : String) :
    (∀ object, Registers tm hs w (LogosAPIProvider.registerObject hs name object) false w' →
      (Untouched w w' ↔
        object = none ∨ name = "" ∨ w.provider.moduleProxy.isSome = true) ∧
      (¬ Untouched w w' → LockedOut tm hs w')) ∧
    ∀ provider, Registers tm hs w (LogosAPIProvider.registerProvider hs name provider) false w' →
      (Untouched w w' ↔
        provider = none ∨ name = "" ∨ w.provider.moduleProxy.isSome = true) ∧
      (¬ Untouched w w' → LockedOut tm hs w') := by
  constructor
  · intro object h
    refine untouched_iff (fun hearly => (h.refused_object hearly).2) fun hpast => ?_
    obtain ⟨hobject, hpast⟩ := not_or.1 hpast
    obtain ⟨hname, hw⟩ := not_or.1 hpast
    obtain ⟨object, rfl⟩ := Option.ne_none_iff_exists'.1 hobject
    exact ⟨hw, h.registerObject hname⟩
  · intro provider h
    refine untouched_iff (fun hearly => (h.refused_provider hearly).2) fun hpast => ?_
    obtain ⟨hprovider, hpast⟩ := not_or.1 hpast
    obtain ⟨hname, hw⟩ := not_or.1 hpast
    obtain ⟨provider, rfl⟩ := Option.ne_none_iff_exists'.1 hprovider
    exact ⟨hw, h.registerProvider hname⟩

end

theorem handshake_only_run : ∃ w', Runs (providerExec (V := Nat) .tables 0) registeringWorld
    (LogosAPIProvider.registerProvider (fun name => name ++ ".handshake") "m"
      (some (.native 0))) false w' ∧
    w'.provider.moduleProxy.isSome = true ∧
    w'.published = [⟨0, "m.handshake", .handshake, some 0⟩] := by
  constructor
  constructor
  · apply Runs.act (r := false) ⟨rfl, rfl⟩
    apply Runs.act (r := ()) rfl
    apply Runs.act (r := ()) rfl
    apply Runs.act (r := ()) rfl
    apply Runs.act (r := 1) ⟨rfl, rfl⟩
    apply Runs.act (r := true) rfl
    apply Runs.act (r := ()) rfl
    apply Runs.act (r := ()) rfl
    apply Runs.act (r := ()) rfl
    apply Runs.act (r := 1) ⟨rfl, rfl⟩
    apply Runs.act (r := false) rfl
    apply Runs.act (r := ()) rfl
    exact .ret _ _
  · exact ⟨rfl, rfl⟩

/-- The registration fails then, the token surface stays, and the next registration is
refused. -/
theorem failed_registration_leaves_handshake :
    ∃ w', Registers (V := Nat) .tables (fun name => name ++ ".handshake") registeringWorld
        (LogosAPIProvider.registerProvider (fun name => name ++ ".handshake") "m"
          (some (.native 0))) false w' ∧
      ¬ Untouched registeringWorld w' ∧ w'.Publishes 0 "m.handshake" ∧
      LockedOut .tables (fun name => name ++ ".handshake") w' := by
  obtain ⟨w', hrun, hproxy, hpublished⟩ := handshake_only_run
  refine ⟨w', Runs.nested hrun, touched hproxy nofun, ?_, lockedOut hproxy⟩
  exact ⟨_, hpublished ▸ List.mem_singleton_self _, rfl, rfl⟩

/-- A registration that fails past its checks, and one that is refused for the proxy it has left. -/
theorem failed_registration_iff_refused : ∃ w',
    ¬ Untouched registeringWorld w' ∧
      LockedOut .tables (fun name => name ++ ".handshake") w' ∧
      ∃ w'', Registers (V := Nat) .tables (fun name => name ++ ".handshake") w'
          (LogosAPIProvider.registerObject (fun name => name ++ ".handshake") "n"
            (some ⟨1, true⟩)) false w'' ∧ Untouched w' w'' := by
  obtain ⟨w', hrun, hproxy, _⟩ := handshake_only_run
  have hfirst := (failed_registration_iff .tables (fun name => name ++ ".handshake")
    registeringWorld w' "m").2 _ (Runs.nested hrun)
  have htouched : ¬ Untouched registeringWorld w' := by
    intro hu
    obtain hnone | hempty | hw := hfirst.1.1 hu
    · cases hnone
    · exact absurd hempty (by decide)
    · cases hw
  have hagain : Registers .tables (fun name => name ++ ".handshake") w'
      (LogosAPIProvider.registerObject (fun name => name ++ ".handshake") "n"
        (some ⟨1, true⟩)) false w' := .act (r := true) ⟨hproxy.symm, rfl⟩ (.ret _ _)
  have hsecond := (failed_registration_iff .tables (fun name => name ++ ".handshake")
    w' w' "n").1 _ hagain
  exact ⟨w', htouched, hfirst.2 htouched, w', hagain, hsecond.1.2 (.inr (.inr hproxy))⟩

end LogosPluginQt
