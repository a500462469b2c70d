import LogosPluginQt.RegistrationFailure

namespace LogosPluginQt
open Interleaving LogosAPIProvider
set_option autoImplicit true

/-- A transport stops serving the objects of a name. -/
def unpublishObject (transport : Nat) (name : String) (published : List Publication) :
    List Publication :=
  published.filter fun p => p.transport ≠ transport ∨ p.name ≠ name

def withdraw (transports : Nat) (name : String) (published : List Publication) :
    List Publication :=
  if name = "" then published
  else (List.range transports).foldl (fun rest t => unpublishObject t name rest) published

namespace ProviderWorld
variable {σ V : Type}

/-- `~LogosAPIProvider`. -/
def destroy (w : ProviderWorld σ V) : ProviderWorld σ V :=
  let p := w.provider
  let published := withdraw p.transports p.registeredObjectName w.published
  { w with published := withdraw p.transports p.registeredHandshakeName published }

end ProviderWorld

def ProviderAction.initializes {V : Type} : ProviderAction V → Bool
  | .init _ => true
  | _ => false

def ProviderAction.offers {V : Type} : ProviderAction V → Bool
  | .publishObject _ _ _ | .recordHandshake _ _ | .recordObject _ _ => true
  | _ => false

def lifetimeSystem {σ V : Type} (tm : TokenManager σ) (handshakeObjectName : String → String) :
    System (ProviderAction.Ans (V := V)) Bool (ProviderWorld σ V) where
  exec := providerExec tm
  enter t w waiting p w' := t = 0 ∧ w' = w ∧
    (∀ a, waiting = some a → a.initializes = true) ∧
      ∃ op : ProviderOp V, p = op.prog handshakeObjectName

/-- How far a call has come, and which name a transport has taken from it. -/
inductive NamePhase where
  | free
  | checked
  | preparing
  | offering (surface : Surface) (transports : Nat) (taken : Option String)
  | announced
  | initialized

namespace NamePhase
variable {V : Type}

def next : NamePhase → (a : ProviderAction V) → a.Ans → Option NamePhase
  | .free, .moduleProxy, r => some (if r = true then .free else .checked)
  | .free, .setTokenValidator _, _ | .free, .proxySaveToken _ _, _ | .free, .storeToken _ _, _
  | .free, .stampAuthToken _, _ => some .free
  | .checked, .createProviderObject _, r => some (if r.isSome = true then .free else .checked)
  | .checked, .wrapObject _, _ => some .checked
  | .checked, .prepareHandshake _, _ | .preparing, .seedHandshakeTrustAnchor, _
  | .preparing, .createHandshakeProxy, _ => some .preparing
  | .preparing, .transports, n => some (.offering .handshake n none)
  | .offering s n taken, .publishObject t name s', r =>
    if s' = s ∧ t < n ∧ name ≠ "" ∧ taken.getD name = name then
      some (.offering s n (if r = true then some name else taken))
    else none
  | .offering .handshake _ taken, .recordHandshake ok name, _ =>
    if ok = taken.isSome ∧ taken.getD name = name then some .announced else none
  | .announced, .init _, _ | .initialized, .prepareProvider _, _ => some .initialized
  | .initialized, .transports, n => some (.offering .business n none)
  | .offering .business _ taken, .recordObject ok name, _ =>
    if ok = taken.isSome ∧ taken.getD name = name then some .free else none
  | _, _, _ => none

inductive Move : NamePhase → (a : ProviderAction V) → a.Ans → NamePhase → Prop
  | check (r) : Move .free .moduleProxy r (if r = true then .free else .checked)
  | validator (v r) : Move .free (.setTokenValidator v) r .free
  | save (m token r) : Move .free (.proxySaveToken m token) r .free
  | store (k token r) : Move .free (.storeToken k token) r .free
  | stamp (token r) : Move .free (.stampAuthToken token) r .free
  | create (o r) : Move .checked (.createProviderObject o) r
      (if r.isSome = true then .free else .checked)
  | wrap (o r) : Move .checked (.wrapObject o) r .checked
  | prepare (p r) : Move .checked (.prepareHandshake p) r .preparing
  | seed (r) : Move .preparing .seedHandshakeTrustAnchor r .preparing
  | handshakeProxy (r) : Move .preparing .createHandshakeProxy r .preparing
  | hosts (n) : Move .preparing .transports n (.offering .handshake n none)
  | offer (s n taken t name r) (ht : t < n) (hne : name ≠ "") (hname : taken.getD name = name) :
      Move (.offering s n taken) (.publishObject t name s) r
        (.offering s n (if r = true then some name else taken))
  | announced (n taken name r) (hname : taken.getD name = name) :
      Move (.offering .handshake n taken) (.recordHandshake taken.isSome name) r .announced
  | init (p r) : Move .announced (.init p) r .initialized
  | reuse (p r) : Move .initialized (.prepareProvider p) r .initialized
  | hosts' (n) : Move .initialized .transports n (.offering .business n none)
  | recorded (n taken name r) (hname : taken.getD name = name) :
      Move (.offering .business n taken) (.recordObject taken.isSome name) r .free

theorem next_move {κ κ' : NamePhase} {a : ProviderAction V} {r : a.Ans}
    (h : next κ a r = some κ') : Move κ a r κ' := by
  unfold next at h
  split at h
  case h_12 =>
    obtain ⟨⟨rfl, ht, hne, hname⟩, he⟩ := Option.ite_none_right_eq_some.1 h
    obtain rfl := Option.some.inj he
    exact .offer _ _ _ _ _ _ ht hne hname
  case h_13 =>
    obtain ⟨⟨rfl, hname⟩, he⟩ := Option.ite_none_right_eq_some.1 h
    obtain rfl := Option.some.inj he
    exact .announced _ _ _ _ hname
  case h_17 =>
    obtain ⟨⟨rfl, hname⟩, he⟩ := Option.ite_none_right_eq_some.1 h
    obtain rfl := Option.some.inj he
    exact .recorded _ _ _ _ hname
  case h_18 => cases h
  all_goals
    obtain rfl := Option.some.inj h
    constructor

def mayReturn : NamePhase → Prop
  | .free | .checked => True
  | _ => False

end NamePhase

open NamePhase

section
variable {V : Type} {hs : String → String}

theorem publishOn_offers {name : String} (hne : name ≠ "") (surface : Surface) {n : Nat}
    {ts : List Nat} (hts : ∀ t ∈ ts, t < n) {published : Bool} (taken : Option String)
    (hpublished : published = taken.isSome) (hname : taken.getD name = name) :
    Follows next (fun published κ => ∃ taken', κ = .offering surface n taken' ∧
      published = taken'.isSome ∧ taken'.getD name = name)
      (publishOn (V := V) name surface ts published) (.offering surface n taken) := by
  induction ts generalizing published taken with
  | nil => exact ⟨taken, rfl, hpublished, hname⟩
  | cons t ts ih =>
    have hrest : ∀ t ∈ ts, t < n := fun t' ht' => hts t' (List.mem_cons_of_mem _ ht')
    intro r
    refine ⟨_, if_pos ⟨rfl, hts t (List.mem_cons_self ..), hne, hname⟩, ?_⟩
    cases r with
    | false => exact ih hrest taken ((Bool.or_false _).trans hpublished) hname
    | true => exact ih hrest (some name) (Bool.or_true _) rfl

theorem publishHandshake_names (hhs : ∀ name, name ≠ "" → hs name ≠ "") {name : String}
    (hne : name ≠ "") (p : ProviderRef) :
    Follows next (fun _ κ => κ = .announced) (publishHandshake (V := V) hs name p) .checked := by
  intro _
  refine ⟨_, rfl, ?_⟩
  intro _
  refine ⟨_, rfl, ?_⟩
  intro _
  refine ⟨_, rfl, ?_⟩
  intro n
  refine ⟨_, rfl, ?_⟩
  apply follows_bind (p := publishOn (hs name) .handshake (List.range n) false)
  apply (publishOn_offers (hhs name hne) .handshake (fun t => List.mem_range.1) none rfl rfl).mono
  rintro published κ ⟨taken, rfl, hpublished, hname⟩
  exact fun _ => ⟨_, if_pos ⟨hpublished, hname⟩, rfl⟩

theorem publishProvider_names {name : String} (hne : name ≠ "") (p : ProviderRef) :
    Follows next (fun _ κ => κ.mayReturn) (publishProvider (V := V) name p) .initialized := by
  intro _
  refine ⟨_, rfl, ?_⟩
  intro n
  refine ⟨_, rfl, ?_⟩
  apply follows_bind (p := publishOn name .business (List.range n) false)
  apply (publishOn_offers hne .business (fun t => List.mem_range.1) none rfl rfl).mono
  rintro success κ ⟨taken, rfl, hsuccess, hname⟩
  exact fun _ => ⟨_, if_pos ⟨hsuccess, hname⟩, trivial⟩

theorem registerWith_names (hhs : ∀ name, name ≠ "" → hs name ≠ "") {name : String}
    (hne : name ≠ "") (p : ProviderRef) :
    Follows next (fun _ κ => κ.mayReturn) (registerWith (V := V) hs name p) .checked := by
  apply follows_bind (p := publishHandshake hs name p)
  apply (publishHandshake_names hhs hne p).mono
  rintro _ κ rfl
  exact fun _ => ⟨_, rfl, publishProvider_names hne p⟩

theorem NamePhase.table : CallTable (V := V) next mayReturn .free .checked where
  returns := ⟨trivial, trivial⟩
  free := rfl
  taken := ⟨.free, rfl, trivial, fun _ _ _ => ⟨.free, rfl, trivial⟩⟩
  created _ _ := rfl
  refused _ := rfl
  wrapped _ _ := rfl
  validator _ _ := ⟨.free, rfl, trivial⟩
  store _ _ _ := ⟨.free, rfl, trivial⟩
  stamp _ _ := ⟨.free, rfl, trivial⟩

theorem ProviderOp.prog_names (hhs : ∀ name, name ≠ "" → hs name ≠ "") (op : ProviderOp V) :
    Follows next (fun _ κ => κ.mayReturn) (op.prog hs) .free :=
  NamePhase.table.prog (fun _ p hne => registerWith_names hhs hne p) op

end

section
variable {σ V : Type} {tm : TokenManager σ} {w w' : ProviderWorld σ V} {κ κ' : NamePhase}

def NamePhase.MayServe (p : LogosAPIProvider V) (name : String) : NamePhase → Prop
  | .free | .checked => name = p.registeredHandshakeName ∨ name = p.registeredObjectName
  | .preparing => False
  | .offering .handshake _ taken => taken = some name
  | .announced | .initialized => name = p.registeredHandshakeName
  | .offering .business _ taken => name = p.registeredHandshakeName ∨ taken = some name

def NamePhase.Holds (w : ProviderWorld σ V) : NamePhase → Prop
  | .free => True
  | .checked => w.provider.moduleProxy.isSome = false
  | .offering _ n _ => w.provider.moduleProxy.isSome = true ∧ n = w.provider.transports
  | _ => w.provider.moduleProxy.isSome = true

structure Served (κ : NamePhase) (w : ProviderWorld σ V) : Prop where
  names : ∀ p ∈ w.published,
    p.transport < w.provider.transports ∧ p.name ≠ "" ∧ κ.MayServe w.provider p.name
  fresh : w.provider.moduleProxy.isSome = false → w.published = []
  holds : κ.Holds w

structure Quiet (w w' : ProviderWorld σ V) : Prop where
  published : w'.published = w.published
  transports : w'.provider.transports = w.provider.transports
  handshakeName : w'.provider.registeredHandshakeName = w.provider.registeredHandshakeName
  objectName : w'.provider.registeredObjectName = w.provider.registeredObjectName
  moduleProxy : w'.provider.moduleProxy.isSome = w.provider.moduleProxy.isSome

theorem Quiet.refl (w : ProviderWorld σ V) : Quiet w w := ⟨rfl, rfl, rfl, rfl, rfl⟩

theorem Quiet.mayServe (h : Quiet w w') (name : String) :
    κ.MayServe w'.provider name ↔ κ.MayServe w.provider name := by
  cases κ with
  | offering s n taken =>
    cases s with
    | handshake => exact Iff.rfl
    | business => simp only [MayServe, h.handshakeName]
  | _ => simp only [MayServe, h.handshakeName, h.objectName]

theorem Served.quiet (h : Served κ w) (hq : Quiet w w')
    (hκ : ∀ name, κ.MayServe w.provider name → κ'.MayServe w.provider name) (hw : κ'.Holds w') :
    Served κ' w' where
  names p hp := by
    rw [hq.published] at hp
    obtain ⟨ht, hne, hname⟩ := h.names p hp
    rw [hq.transports, hq.mayServe]
    exact ⟨ht, hne, hκ _ hname⟩
  fresh hnone := by
    rw [hq.published]
    exact h.fresh (hq.moduleProxy ▸ hnone)
  holds := hw

theorem Served.keep (h : Served κ w) (hκ : ∀ name, κ.MayServe w.provider name →
    κ'.MayServe w.provider name) (hw : κ'.Holds w) : Served κ' w :=
  h.quiet (.refl w) hκ hw

theorem prepareProvider_names (p : LogosAPIProvider V) (q : ProviderRef) :
    (p.prepareProvider q).transports = p.transports ∧
      (p.prepareProvider q).registeredHandshakeName = p.registeredHandshakeName ∧
        (p.prepareProvider q).registeredObjectName = p.registeredObjectName := by
  cases hm : p.moduleProxy <;> cases hv : p.pendingValidator <;>
    simp only [prepareProvider, createModuleProxy, newModuleProxy, applyPendingValidator, hm, hv,
      and_self]

theorem prepareProvider_quiet (h : w.provider.moduleProxy.isSome = true) (q : ProviderRef) :
    Quiet w (w.withProvider (w.provider.prepareProvider q)) := by
  obtain ⟨htransports, hhandshake, hobject⟩ := prepareProvider_names w.provider q
  have hsome : (w.provider.prepareProvider q).moduleProxy.isSome = true := by
    simp only [prepareProvider_moduleProxy, Option.isSome_some]
  exact ⟨rfl, htransports, hhandshake, hobject, hsome.trans h.symm⟩

theorem setTokenValidator_quiet (v : Option V) :
    Quiet w { w.withProvider (w.provider.setTokenValidator v) with lastValidator := v } :=
  ⟨rfl, rfl, rfl, rfl, Option.isSome_map⟩

theorem Served.offer {s : Surface} {n t : Nat} {taken : Option String} {name : String} {r : Bool}
    (h : Served (.offering s n taken) w) (ht : t < n) (hne : name ≠ "")
    (hname : taken.getD name = name)
    (he : providerExec tm 0 w (.publishObject t name s) r w') :
    Served (.offering s n (if r = true then some name else taken)) w' := by
  obtain rfl := he
  cases r with
  | false => exact h
  | true =>
    refine ⟨fun p hp => ?_, fun hnone => ?_, h.holds⟩
    · rcases List.mem_cons.1 hp with rfl | hp
      · refine ⟨h.holds.2 ▸ ht, hne, ?_⟩
        cases s with
        | handshake => rfl
        | business => exact .inr rfl
      · obtain ⟨hbound, hpne, hserve⟩ := h.names p hp
        refine ⟨hbound, hpne, ?_⟩
        cases s with
        | handshake =>
          obtain rfl : taken = some p.name := hserve
          exact congrArg some hname.symm
        | business =>
          refine hserve.imp_right fun htaken => ?_
          obtain rfl : taken = some p.name := htaken
          exact congrArg some hname.symm
    · have hsome : w.provider.moduleProxy.isSome = true := h.holds.1
      cases hsome.symm.trans hnone

theorem Served.announced {n : Nat} {taken : Option String} {name : String} {r : Unit}
    (h : Served (.offering .handshake n taken) w) (hname : taken.getD name = name)
    (he : providerExec tm 0 w (.recordHandshake taken.isSome name) r w') :
    Served .announced w' := by
  obtain rfl := he
  cases taken with
  | none => exact h.keep nofun h.holds.1
  | some taken =>
    obtain rfl : taken = name := hname
    refine ⟨fun p hp => ?_, h.fresh, h.holds.1⟩
    obtain ⟨hbound, hne, hserve⟩ := h.names p hp
    exact ⟨hbound, hne, (Option.some.inj hserve).symm⟩

theorem Served.recorded {n : Nat} {taken : Option String} {name : String} {r : Unit}
    (h : Served (.offering .business n taken) w) (hname : taken.getD name = name)
    (he : providerExec tm 0 w (.recordObject taken.isSome name) r w') :
    Served .free w' := by
  obtain rfl := he
  cases taken with
  | none => exact h.keep (fun _ hserve => hserve.imp_right nofun) trivial
  | some taken =>
    obtain rfl : taken = name := hname
    refine ⟨fun p hp => ?_, h.fresh, trivial⟩
    obtain ⟨hbound, hne, hserve⟩ := h.names p hp
    exact ⟨hbound, hne, hserve.imp_right fun htaken => (Option.some.inj htaken).symm⟩

theorem Served.of_move {a : ProviderAction V} {r : a.Ans} (h : Served κ w) (hm : Move κ a r κ')
    (he : providerExec tm 0 w a r w') : Served κ' w' := by
  cases hm with
  | check r =>
    obtain ⟨hr, rfl⟩ := he
    cases r with
    | true => exact h.keep (fun _ => id) trivial
    | false => exact h.keep (fun _ => id) hr.symm
  | validator v r =>
    obtain rfl := he
    exact h.quiet (setTokenValidator_quiet v) (fun _ => id) trivial
  | save m token r =>
    obtain ⟨s, rfl⟩ := he
    exact h.quiet ⟨rfl, rfl, rfl, rfl, rfl⟩ (fun _ => id) trivial
  | store | stamp =>
    obtain rfl := he
    exact h.quiet ⟨rfl, rfl, rfl, rfl, rfl⟩ (fun _ => id) trivial
  | create o r =>
    obtain rfl := he
    cases r with
    | some provider => exact h.keep (fun _ => id) trivial
    | none => exact h.keep (fun _ => id) h.holds
  | wrap | seed | handshakeProxy | init =>
    obtain rfl := he
    exact h.quiet ⟨rfl, rfl, rfl, rfl, rfl⟩ (fun _ => id) h.holds
  | prepare p r =>
    obtain rfl := he
    have hsome : (w.withProvider (w.provider.prepareHandshake p)).provider.moduleProxy.isSome =
        true := by simp only [ProviderWorld.withProvider, prepareHandshake_moduleProxy,
          Option.isSome_some]
    have hnone : (w.withProvider (w.provider.prepareHandshake p)).published = [] :=
      h.fresh h.holds
    exact ⟨fun q hq => absurd (hnone ▸ hq) List.not_mem_nil, fun _ => hnone, hsome⟩
  | hosts n =>
    obtain ⟨rfl, rfl⟩ := he
    exact h.keep (fun _ hserve => hserve.elim) ⟨h.holds, rfl⟩
  | offer s n taken t name r ht hne hname => exact h.offer ht hne hname he
  | announced n taken name r hname => exact h.announced hname he
  | reuse p r =>
    obtain rfl := he
    have hq := prepareProvider_quiet h.holds p
    exact h.quiet hq (fun _ => id) (hq.moduleProxy.trans h.holds)
  | hosts' n =>
    obtain ⟨rfl, rfl⟩ := he
    exact h.keep (fun _ => .inl) ⟨h.holds, rfl⟩
  | recorded n taken name r hname => exact h.recorded hname he

/-- A call that comes from the initializer finds a proxy, and leaves everything as it is. -/
theorem quiet_of_move {a : ProviderAction V} {r : a.Ans} (hm : Move .free a r κ')
    (hsome : w.provider.moduleProxy.isSome = true) (he : providerExec tm 0 w a r w') :
    κ' = .free ∧ Quiet w w' := by
  cases hm with
  | check r =>
    obtain ⟨hr, rfl⟩ := he
    exact ⟨if_pos (hr.trans hsome), .refl _⟩
  | validator v r =>
    obtain rfl := he
    exact ⟨rfl, setTokenValidator_quiet v⟩
  | save m token r =>
    obtain ⟨s, rfl⟩ := he
    exact ⟨rfl, rfl, rfl, rfl, rfl, rfl⟩
  | store | stamp =>
    obtain rfl := he
    exact ⟨rfl, rfl, rfl, rfl, rfl, rfl⟩

/-- The calls under way: none, one, or one that the initializer of another has made. -/
inductive CallStack (w : ProviderWorld σ V) : List NamePhase → Prop where
  | idle : Served .free w → CallStack w []
  | call {κ : NamePhase} : Served κ w → CallStack w [κ]
  | inner : Served .announced w → CallStack w [.free, .announced]

structure LifetimeInvariant (w : ProviderWorld σ V) (φ : Nat → List NamePhase) : Prop where
  alone : ∀ t, t ≠ 0 → φ t = []
  calls : CallStack w (φ 0)

variable {φ : Nat → List NamePhase} {κs rest : List NamePhase} {t : Nat}

theorem CallStack.idle_served (h : CallStack w []) : Served .free w := by
  cases h with
  | idle h => exact h

/-- With every name recorded, any phase in which a call may return or wait is like none. -/
theorem Served.settle (h : Served κ w) (hκ : κ.mayReturn) : Served .free w := by
  cases κ with
  | free => exact h
  | checked => exact h.keep (fun _ => id) trivial
  | _ => cases hκ

theorem CallStack.run {a : ProviderAction V} {r : a.Ans} (h : CallStack w (κ :: rest))
    (hm : Move κ a r κ') (he : providerExec tm 0 w a r w') : CallStack w' (κ' :: rest) := by
  cases h with
  | call h => exact .call (h.of_move hm he)
  | inner h =>
    obtain ⟨rfl, hq⟩ := quiet_of_move hm h.holds he
    exact .inner (h.quiet hq (fun _ => id) (hq.moduleProxy.trans h.holds))

theorem CallStack.leave (h : CallStack w (κ :: rest)) (hκ : κ.mayReturn) : CallStack w rest := by
  cases h with
  | call h => exact .idle (h.settle hκ)
  | inner h => exact .call h

theorem CallStack.nest {a : ProviderAction V} (h : CallStack w (κ :: rest))
    (ha : a.initializes = true) (hallowed : ∀ r, ∃ κ', next κ a r = some κ') :
    CallStack w (.free :: κ :: rest) := by
  cases a with
  | init p =>
    obtain ⟨κ', hn⟩ := hallowed ()
    cases next_move hn with
    | init =>
      cases h with
      | call h => exact .inner h
  | _ => cases ha

theorem LifetimeInvariant.thread (h : LifetimeInvariant w φ) (hφ : φ t = κ :: rest) : t = 0 := by
  by_contra ht
  rw [h.alone t ht] at hφ
  cases hφ

theorem LifetimeInvariant.update (h : LifetimeInvariant w φ) (hcalls : CallStack w' κs) :
    LifetimeInvariant w' (Function.update φ 0 κs) where
  alone t ht := by
    rw [Function.update_of_ne ht]
    exact h.alone t ht
  calls := by
    rw [Function.update_self]
    exact hcalls

theorem lifetime_invariant (tm : TokenManager σ) {hs : String → String}
    (hhs : ∀ name, name ≠ "" → hs name ≠ "") :
    PhaseInvariant (lifetimeSystem (V := V) tm hs) next (fun _ κ => κ.mayReturn)
      LifetimeInvariant where
  run h hφ he hn := by
    obtain rfl := h.thread hφ
    have hcalls := h.calls
    rw [hφ] at hcalls
    exact h.update (hcalls.run (next_move hn) he)
  leave h hφ hκ := by
    obtain rfl := h.thread hφ
    have hcalls := h.calls
    rw [hφ] at hcalls
    exact h.update (hcalls.leave hκ)
  enter h hφ he := by
    obtain ⟨rfl, rfl, _, op, rfl⟩ := he
    have hcalls := h.calls
    rw [hφ] at hcalls
    exact ⟨.free, op.prog_names hhs, h.update (.call hcalls.idle_served)⟩
  nest h hφ hallowed he := by
    obtain ⟨rfl, rfl, ha, op, rfl⟩ := he
    have hcalls := h.calls
    rw [hφ] at hcalls
    refine ⟨.free, op.prog_names hhs, h.update ?_⟩
    rw [hφ]
    exact hcalls.nest (ha _ rfl) hallowed

theorem lifetime_reachable {hs : String → String} (hhs : ∀ name, name ≠ "" → hs name ≠ "") {n : Nat}
    {s : σ} {authToken : Option Token}
    {c : Config (ProviderAction.Ans (V := V)) Bool (ProviderWorld σ V)}
    (h : Reachable (lifetimeSystem tm hs) (.initial n s authToken) c) :
    ∃ φ, Tracks next (fun _ κ => κ.mayReturn) c φ ∧ LifetimeInvariant c.shared φ :=
  (lifetime_invariant tm hhs).reachable
    ⟨fun _ _ => rfl, .idle ⟨fun _ hp => absurd hp List.not_mem_nil, fun _ => rfl, trivial⟩⟩ h

end

section
variable {σ V : Type}

theorem mem_unpublishObject {t : Nat} {name : String} {published : List Publication}
    {p : Publication} : p ∈ unpublishObject t name published ↔
      p ∈ published ∧ (p.transport ≠ t ∨ p.name ≠ name) := by
  rw [unpublishObject, List.mem_filter, decide_eq_true_eq]

theorem mem_unpublish_all {name : String} {ts : List Nat} {published : List Publication}
    {p : Publication} :
    p ∈ ts.foldl (fun rest t => unpublishObject t name rest) published ↔
      p ∈ published ∧ ∀ t ∈ ts, p.transport ≠ t ∨ p.name ≠ name := by
  induction ts generalizing published with
  | nil => exact ⟨fun h => ⟨h, nofun⟩, fun h => h.1⟩
  | cons t ts ih => rw [List.foldl_cons, ih, mem_unpublishObject, List.forall_mem_cons, and_assoc]

theorem of_mem_withdraw {n : Nat} {name : String} {published : List Publication}
    {p : Publication} (h : p ∈ withdraw n name published) :
    p ∈ published ∧ (p.transport < n → p.name ≠ "" → p.name ≠ name) := by
  unfold withdraw at h
  split at h
  next hname => exact ⟨h, fun _ hne => hname ▸ hne⟩
  next =>
    obtain ⟨hp, hleft⟩ := mem_unpublish_all.1 h
    refine ⟨hp, fun ht _ => ?_⟩
    exact (hleft p.transport (List.mem_range.2 ht)).resolve_left fun hself => hself rfl

/-- What is promised of a provider in every interleaving of its calls. -/
structure Withdrawn (c : Config (ProviderAction.Ans (V := V)) Bool (ProviderWorld σ V)) :
    Prop where
  /-- Unless a call is just offering a name, every name that is served is recorded. -/
  recorded : (∀ p ∈ c.stack 0, ∀ a, p.pending = some a → a.offers = false) →
    ∀ p ∈ c.shared.published, p.transport < c.shared.provider.transports ∧
      (p.name = c.shared.provider.registeredHandshakeName ∨
        p.name = c.shared.provider.registeredObjectName)
  destroyed : c.stack 0 = [] → ∀ t name, ¬ c.shared.destroy.Publishes t name

theorem offers_of_offering {p : ProviderProg V Bool} {s : Surface} {n : Nat}
    {taken : Option String}
    (h : Follows next (fun _ κ => κ.mayReturn) p (.offering s n taken)) :
    ∃ a, p.pending = some a ∧ a.offers = true := by
  cases p with
  | ret x => cases h
  | act a resume =>
    refine ⟨a, rfl, ?_⟩
    cases a with
    | publishObject | recordHandshake | recordObject => rfl
    | moduleProxy | proxySaveToken =>
      obtain ⟨κ', hn, _⟩ := h false
      cases next_move hn
    | createProviderObject =>
      obtain ⟨κ', hn, _⟩ := h none
      cases next_move hn
    | transports =>
      obtain ⟨κ', hn, _⟩ := h 0
      cases next_move hn
    | _ =>
      obtain ⟨κ', hn, _⟩ := h ()
      cases next_move hn

theorem NamePhase.MayServe.recorded {p : LogosAPIProvider V} {name : String} {κ : NamePhase}
    (h : κ.MayServe p name) (hκ : ∀ s n taken, κ ≠ .offering s n taken) :
    name = p.registeredHandshakeName ∨ name = p.registeredObjectName := by
  cases κ with
  | free | checked => exact h
  | preparing => cases h
  | offering s n taken => exact absurd rfl (hκ s n taken)
  | announced | initialized => exact .inl h

theorem Served.recorded_names {w : ProviderWorld σ V} {κ : NamePhase} (h : Served κ w)
    (hκ : ∀ s n taken, κ ≠ .offering s n taken) :
    ∀ p ∈ w.published, p.transport < w.provider.transports ∧
      (p.name = w.provider.registeredHandshakeName ∨ p.name = w.provider.registeredObjectName) := by
  intro p hp
  obtain ⟨ht, _, hname⟩ := h.names p hp
  exact ⟨ht, hname.recorded hκ⟩

theorem Served.destroyed {w : ProviderWorld σ V} (h : Served .free w) (t : Nat) (name : String) :
    ¬ w.destroy.Publishes t name := by
  rintro ⟨p, hp, _, _⟩
  obtain ⟨hrest, hhandshake⟩ := of_mem_withdraw hp
  obtain ⟨hmem, hobject⟩ := of_mem_withdraw hrest
  obtain ⟨ht, hne, hname⟩ := h.names p hmem
  rcases hname with hname | hname
  · exact hhandshake ht hne hname
  · exact hobject ht hne hname

/-- A provider records every name it publishes, and its destructor withdraws them all. -/
theorem teardown_withdraws (tm : TokenManager σ) {hs : String → String}
    (hhs : ∀ name, name ≠ "" → hs name ≠ "") {n : Nat} {s : σ} {authToken : Option Token}
    {c : Config (ProviderAction.Ans (V := V)) Bool (ProviderWorld σ V)}
    (h : Reachable (lifetimeSystem tm hs) (.initial n s authToken) c) : Withdrawn c := by
  obtain ⟨φ, hc, hI⟩ := lifetime_reachable hhs h
  have hcalls := hI.calls
  refine ⟨fun hrest => ?_, fun hidle => ?_⟩
  · have htracks := hc 0
    generalize φ 0 = κs at hcalls htracks
    cases hcalls with
    | idle h => exact h.recorded_names nofun
    | inner h => exact h.recorded_names nofun
    | call h =>
      obtain ⟨p, _, hp, _, hstack⟩ := List.forall₂_cons_right_iff.1 htracks
      refine h.recorded_names fun s n taken hκ => ?_
      obtain ⟨a, ha, hoffers⟩ := offers_of_offering (hκ ▸ hp)
      have hquiet := hrest p (hstack ▸ List.mem_cons_self ..) a ha
      rw [hoffers] at hquiet
      cases hquiet
  · rw [hc.nil hidle] at hcalls
    exact hcalls.idle_served.destroyed

end

/-- A provider whose module was refused by its transport, after the handshake was taken. -/
theorem teardown_withdraws_handshake :
    ∃ c : Config (ProviderAction.Ans (V := Nat)) Bool (ProviderWorld TokenManager.Tables Nat),
      c.shared.Publishes 0 "m.handshake" ∧ c.stack 0 = [] ∧ Withdrawn c := by
  have hhs : ∀ name : String, name ≠ "" → name ++ ".handshake" ≠ "" := by
    intro name _ hempty
    have hlength := congrArg String.length hempty
    rw [String.length_append] at hlength
    have hsuffix : ".handshake".length = 10 := by decide
    have hnone : "".length = 0 := by decide
    omega
  obtain ⟨w', hrun, _, hpublished⟩ := handshake_only_run
  have h₀ := Reachable.refl (lifetimeSystem .tables fun name => name ++ ".handshake")
    registeringWorld
  have h₁ := h₀.call (t := 0) rfl
    ⟨rfl, rfl, nofun, .registerProvider "m" (some (.native 0)), rfl⟩ hrun
  have hserves : w'.Publishes 0 "m.handshake" := by
    refine ⟨⟨0, "m.handshake", .handshake, some 0⟩, ?_, rfl, rfl⟩
    rw [hpublished]
    exact List.mem_singleton_self _
  exact ⟨_, hserves, rfl, teardown_withdraws .tables hhs h₁⟩

end LogosPluginQt
