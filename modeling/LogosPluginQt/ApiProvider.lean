import LogosPluginQt.Interleaving
import LogosPluginQt.TokenManager

namespace LogosPluginQt
open Interleaving
set_option autoImplicit true

/-- A provider object a module handed over, or the adapter wrapped around a plain object. -/
inductive ProviderRef where
  | native (n : Nat)
  | wrapped (object : Nat)
deriving DecidableEq

/-- A `QObject` given to `registerObject`, and whether it casts to `LogosProviderPlugin`. -/
structure PluginObject where
  object : Nat
  isProviderPlugin : Bool

/-- `V` is the type of token validators; an empty `std::function` is `none`. Proxies are told
apart by the order in which they were created. -/
structure ModuleProxy (V : Type) where
  id : Nat
  provider : ProviderRef
  validator : Option V := none

inductive Surface where
  | handshake
  | business
deriving DecidableEq

/-- A `ModuleHandshakeProxy` is the `ModuleProxy` that it forwards to. -/
structure LogosAPIProvider (V : Type) where
  transports : Nat
  moduleProxy : Option (ModuleProxy V) := none
  handshakeProxy : Option Nat := none
  registeredHandshakeName : String := ""
  qtProviderObject : Option Nat := none
  registeredObjectName : String := ""
  pendingValidator : Option V := none
  -- how often `new ModuleProxy` has been run
  proxiesCreated : Nat := 0

namespace LogosAPIProvider
variable {V : Type}

def setTokenValidator (p : LogosAPIProvider V) (v : Option V) : LogosAPIProvider V :=
  { p with pendingValidator := v
           moduleProxy := p.moduleProxy.map fun proxy => { proxy with validator := v } }

def newModuleProxy (p : LogosAPIProvider V) (provider : ProviderRef) : LogosAPIProvider V :=
  { p with moduleProxy := some ⟨p.proxiesCreated, provider, none⟩
           proxiesCreated := p.proxiesCreated + 1 }

def createModuleProxy (p : LogosAPIProvider V) (provider : ProviderRef) : LogosAPIProvider V :=
  match p.moduleProxy with
  | some _ => p
  | none => p.newModuleProxy provider

def createHandshakeProxy (p : LogosAPIProvider V) : LogosAPIProvider V :=
  { p with handshakeProxy := p.moduleProxy.map ModuleProxy.id }

def served (p : LogosAPIProvider V) : Surface → Option Nat
  | .handshake => p.handshakeProxy
  | .business => p.moduleProxy.map ModuleProxy.id

def applyPendingValidator (p : LogosAPIProvider V) : LogosAPIProvider V :=
  match p.pendingValidator with
  | some v => { p with moduleProxy := p.moduleProxy.map fun proxy =>
      { proxy with validator := some v } }
  | none => p

/-- How `publishHandshake` starts: a validator is applied to a proxy it creates. -/
def prepareHandshake (p : LogosAPIProvider V) (provider : ProviderRef) : LogosAPIProvider V :=
  match p.moduleProxy with
  | some _ => p
  | none => (p.createModuleProxy provider).applyPendingValidator

/-- How `publishProvider` starts: a validator is applied in any case. -/
def prepareProvider (p : LogosAPIProvider V) (provider : ProviderRef) : LogosAPIProvider V :=
  (p.createModuleProxy provider).applyPendingValidator

end LogosAPIProvider

section
variable {σ : Type}

def trustAnchorKeys : List Key := ["core", "capability_module"]

def seedKey (tm : TokenManager σ) (hostToken : Token) (s : σ) (key : Key) : σ :=
  if tm.getToken s .ring key = "" then tm.saveToken s .ring key hostToken else s

/-- `authToken` is the property of the parent `LogosAPI`, `none` when there is no parent. -/
def seedHandshakeTrustAnchor (tm : TokenManager σ) (authToken : Option Token) (s : σ) : σ :=
  match authToken with
  | none => s
  | some hostToken =>
    if hostToken = "" then s else trustAnchorKeys.foldl (seedKey tm hostToken) s

end

/-- The calls of a `LogosAPIProvider`: on its own members between two outgoing calls, on
its transports, and into the module. -/
inductive ProviderAction (V : Type) where
  | moduleProxy
  | createProviderObject (object : Nat)
  | wrapObject (object : Nat)
  | prepareHandshake (provider : ProviderRef)
  | seedHandshakeTrustAnchor
  | createHandshakeProxy
  | transports
  | publishObject (transport : Nat) (name : String) (surface : Surface)
  | recordHandshake (published : Bool) (name : String)
  | init (provider : ProviderRef)
  | prepareProvider (provider : ProviderRef)
  | recordObject (published : Bool) (name : String)
  | setTokenValidator (v : Option V)
  | proxySaveToken (fromModule : String) (token : Token)
  -- what the module and its host do beside the provider
  | storeToken (key : Key) (token : Token)
  | stampAuthToken (token : Token)

abbrev ProviderAction.Ans {V : Type} : ProviderAction V → Type
  | .moduleProxy | .publishObject _ _ _ | .proxySaveToken _ _ => Bool
  | .createProviderObject _ => Option Nat
  | .transports => Nat
  | _ => Unit

abbrev ProviderProg (V α : Type) := Prog (ProviderAction.Ans (V := V)) α

namespace LogosAPIProvider
variable {V : Type}

def perform (a : ProviderAction V) : ProviderProg V a.Ans := .act a .ret

/-- Offers a surface to one transport after the other; any that takes it is a success. -/
def publishOn (name : String) (surface : Surface) : List Nat → Bool → ProviderProg V Bool
  | [], published => return published
  | t :: rest, published => do
    let ok ← perform (.publishObject t name surface)
    publishOn name surface rest (published || ok)

def publishHandshake (handshakeObjectName : String → String) (name : String)
    (provider : ProviderRef) : ProviderProg V Unit := do
  perform (.prepareHandshake provider)
  perform .seedHandshakeTrustAnchor
  perform .createHandshakeProxy
  let n ← perform .transports
  let published ← publishOn (handshakeObjectName name) .handshake (List.range n) false
  perform (.recordHandshake published (handshakeObjectName name))

def publishProvider (name : String) (provider : ProviderRef) : ProviderProg V Bool := do
  perform (.prepareProvider provider)
  let n ← perform .transports
  let success ← publishOn name .business (List.range n) false
  perform (.recordObject success name)
  return success

def registerWith (handshakeObjectName : String → String) (name : String)
    (provider : ProviderRef) : ProviderProg V Bool := do
  publishHandshake handshakeObjectName name provider
  perform (.init provider)
  publishProvider name provider

def registerProvider (handshakeObjectName : String → String) (name : String)
    (provider : Option ProviderRef) : ProviderProg V Bool := do
  match provider with
  | none => return false
  | some provider =>
    if name = "" then return false
    let registered ← perform .moduleProxy
    if registered then return false
    registerWith handshakeObjectName name provider

/-- `registerObject` for a plain `QObject`. -/
def registerObject (handshakeObjectName : String → String) (name : String)
    (object : Option PluginObject) : ProviderProg V Bool := do
  match object with
  | none => return false
  | some object =>
    if name = "" then return false
    let registered ← perform .moduleProxy
    if registered then return false
    if object.isProviderPlugin then
      let provider ← perform (.createProviderObject object.object)
      match provider with
      | some n => registerProvider handshakeObjectName name (some (.native n))
      | none => do
        perform (.wrapObject object.object)
        registerWith handshakeObjectName name (.wrapped object.object)
    else
      perform (.wrapObject object.object)
      registerWith handshakeObjectName name (.wrapped object.object)

def saveToken (fromModule : String) (token : Token) : ProviderProg V Bool := do
  let present ← perform .moduleProxy
  if !present then return false
  perform (.proxySaveToken fromModule token)

end LogosAPIProvider

inductive ProviderOp (V : Type) where
  | registerObject (name : String) (object : Option PluginObject)
  | registerProvider (name : String) (provider : Option ProviderRef)
  | setTokenValidator (v : Option V)
  | saveToken (fromModule : String) (token : Token)
  | storeToken (key : Key) (token : Token)
  | stampAuthToken (token : Token)

def ProviderOp.prog {V : Type} (handshakeObjectName : String → String) :
    ProviderOp V → ProviderProg V Bool
  | .registerObject name object =>
    LogosAPIProvider.registerObject handshakeObjectName name object
  | .registerProvider name provider =>
    LogosAPIProvider.registerProvider handshakeObjectName name provider
  | .setTokenValidator v => do
    LogosAPIProvider.perform (.setTokenValidator v)
    return true
  | .saveToken fromModule token => LogosAPIProvider.saveToken fromModule token
  | .storeToken key token => do
    LogosAPIProvider.perform (.storeToken key token)
    return true
  | .stampAuthToken token => do
    LogosAPIProvider.perform (.stampAuthToken token)
    return true

/-- An object name as one transport serves it, and the proxy its calls come to. -/
structure Publication where
  transport : Nat
  name : String
  surface : Surface
  proxy : Option Nat

structure ProviderWorld (σ V : Type) where
  provider : LogosAPIProvider V
  tokens : σ
  authToken : Option Token
  published : List Publication := []
  -- what has happened so far
  lastValidator : Option V := none
  initialized : List ProviderRef := []

section
variable {σ V : Type}

def ProviderWorld.withProvider (w : ProviderWorld σ V) (p : LogosAPIProvider V) :
    ProviderWorld σ V :=
  { w with provider := p }

def ProviderWorld.withTokens (w : ProviderWorld σ V) (s : σ) : ProviderWorld σ V :=
  { w with tokens := s }

/-- The effect of one action. Transports and module code answer as they like, and what the
proxy does with an inbound token is its own affair. -/
def providerExec (tm : TokenManager σ) (_ : Nat) (w : ProviderWorld σ V) :
    (a : ProviderAction V) → a.Ans → ProviderWorld σ V → Prop
  | .moduleProxy, r, w' => r = w.provider.moduleProxy.isSome ∧ w' = w
  | .createProviderObject _, _, w' => w' = w
  | .wrapObject object, _, w' =>
    w' = w.withProvider { w.provider with qtProviderObject := some object }
  | .prepareHandshake provider, _, w' =>
    w' = w.withProvider (w.provider.prepareHandshake provider)
  | .seedHandshakeTrustAnchor, _, w' =>
    w' = w.withTokens (seedHandshakeTrustAnchor tm w.authToken w.tokens)
  | .createHandshakeProxy, _, w' =>
    w' = w.withProvider w.provider.createHandshakeProxy
  | .transports, r, w' => r = w.provider.transports ∧ w' = w
  | .publishObject t name surface, r, w' =>
    w' = if r = true then
      { w with published := ⟨t, name, surface, w.provider.served surface⟩ :: w.published } else w
  | .recordHandshake published name, _, w' =>
    w' = if published = true then
      w.withProvider { w.provider with registeredHandshakeName := name } else w
  | .init provider, _, w' => w' = { w with initialized := provider :: w.initialized }
  | .prepareProvider provider, _, w' =>
    w' = w.withProvider (w.provider.prepareProvider provider)
  | .recordObject published name, _, w' =>
    w' = if published = true then
      w.withProvider { w.provider with registeredObjectName := name } else w
  | .setTokenValidator v, _, w' =>
    w' = { w.withProvider (w.provider.setTokenValidator v) with lastValidator := v }
  | .proxySaveToken _ _, _, w' => ∃ s, w' = w.withTokens s
  | .storeToken key token, _, w' => w' = w.withTokens (tm.saveToken w.tokens .ring key token)
  | .stampAuthToken token, _, w' => w' = { w with authToken := w.authToken.map fun _ => token }

/-- Module code runs inside `createProviderObject` and `init`, and may call back from there. -/
def ProviderAction.callsModule : ProviderAction V → Bool
  | .createProviderObject _ | .init _ => true
  | _ => false

/-- One provider on its thread: a call is made when none is under way, or from the module
code that the one under way has called. -/
def providerSystem (tm : TokenManager σ) (handshakeObjectName : String → String) :
    System (ProviderAction.Ans (V := V)) Bool (ProviderWorld σ V) where
  exec := providerExec tm
  enter t w waiting p w' := t = 0 ∧ w' = w ∧ (∀ a, waiting = some a → a.callsModule = true) ∧
    ∃ op : ProviderOp V, p = op.prog handshakeObjectName

end

end LogosPluginQt
