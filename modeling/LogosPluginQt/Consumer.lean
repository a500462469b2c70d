import LogosPluginQt.Interleaving
import LogosPluginQt.TokenManager

namespace LogosPluginQt
open Interleaving
set_option autoImplicit true

/-- What the consumer operations read of a `LogosAPI`: the identity it speaks as and the
store it points at. -/
structure LogosAPI where
  moduleName : Identity
  getTokenManager : Option StoreRef

inductive ConsumerAction where
  | isolateIdentity (identity : Identity)
  | isIsolated (identity : Identity)
  -- `mintCredential()` takes no argument: the identity only labels the log
  | mintCredential (identity : Identity)
  | getClient (api : LogosAPI) (target : String)
  | getToken (store : StoreRef) (key : Key)
  | informModuleToken (authToken : Token) (identity : Identity) (credential : Token)
  | resetIdentity (identity : Identity)
  | adoptCredentialFor (identity : Identity) (credential : Token)
  | adoptCredential (store : StoreRef) (credential : Token)
  | saveToken (store : StoreRef) (key : Key) (token : Token)
  -- the call has returned: only the log sees it
  | returned (success : Bool)

abbrev ConsumerAction.Ans : ConsumerAction → Type
  | .isolateIdentity _ | .isIsolated _ | .getClient _ _ | .informModuleToken _ _ _
  | .adoptCredentialFor _ _ => Bool
  | .mintCredential _ | .getToken _ _ => Token
  | .resetIdentity _ | .adoptCredential _ _ | .saveToken _ _ _ | .returned _ => Unit

abbrev ConsumerProg := Prog ConsumerAction.Ans

namespace ConsumerProg

def isolateIdentity (i : Identity) : ConsumerProg Bool := .act (.isolateIdentity i) .ret
def isIsolated (i : Identity) : ConsumerProg Bool := .act (.isIsolated i) .ret
def mintCredential (i : Identity) : ConsumerProg Token := .act (.mintCredential i) .ret
def getClient (api : LogosAPI) (target : String) : ConsumerProg Bool :=
  .act (.getClient api target) .ret
def getToken (r : StoreRef) (k : Key) : ConsumerProg Token := .act (.getToken r k) .ret
def informModuleToken (authToken : Token) (i : Identity) (c : Token) : ConsumerProg Bool :=
  .act (.informModuleToken authToken i c) .ret
def resetIdentity (i : Identity) : ConsumerProg Unit := .act (.resetIdentity i) .ret
def adoptCredentialFor (i : Identity) (c : Token) : ConsumerProg Bool :=
  .act (.adoptCredentialFor i c) .ret
def adoptCredential (r : StoreRef) (c : Token) : ConsumerProg Unit :=
  .act (.adoptCredential r c) .ret
def saveToken (r : StoreRef) (k : Key) (t : Token) : ConsumerProg Unit :=
  .act (.saveToken r k t) .ret
def returned (success : Bool) : ConsumerProg Unit := .act (.returned success) .ret

end ConsumerProg

open ConsumerProg

/-- `LogosAPI::forIdentity`: isolate first, then construct on the private store. -/
def LogosAPI.forIdentity (identity : Identity) : ConsumerProg (Option LogosAPI) := do
  if identity = "" then return none
  let ok ← isolateIdentity identity
  if !ok then return none
  return some ⟨identity, some (.isolated identity)⟩

def hostCapabilityToken (hostApi : LogosAPI) : ConsumerProg Token :=
  match hostApi.getTokenManager with
  | some hostStore => getToken hostStore "capability_module"
  | none => return ""

def registerAtCapability (hostApi : Option LogosAPI) (identity : Identity)
    (credential : Token) : ConsumerProg Bool := do
  match hostApi with
  | none => return false
  | some hostApi =>
    let cap ← getClient hostApi "capability_module"
    if !cap then return false
    let hostCapToken ← hostCapabilityToken hostApi
    if hostCapToken = "" then return false
    let accepted ← informModuleToken hostCapToken identity credential
    if !accepted then return false
    return true

structure ConsumerIdentity where
  api : LogosAPI
  credential : Token

/-- `none` is the falsy `ConsumerIdentity`. -/
def admitConsumer (identity : Identity) (hostApi : Option LogosAPI) :
    ConsumerProg (Option ConsumerIdentity) := do
  if identity = "" then return none
  let api ← LogosAPI.forIdentity identity
  match api with
  | none => return none
  | some api =>
    let credential ← mintCredential identity
    let registered ← registerAtCapability hostApi identity credential
    if !registered then return none
    let adopted ← adoptCredentialFor identity credential
    if !adopted then return none
    return some ⟨api, credential⟩

/-- The empty token is the failure answer. -/
def reissueConsumerCredential (consumerApi hostApi : Option LogosAPI) :
    ConsumerProg Token := do
  match consumerApi with
  | none => return ""
  | some consumerApi =>
    let identity := consumerApi.moduleName
    if identity = "" then return ""
    let isolated ← isIsolated identity
    if !isolated then return ""
    let credential ← mintCredential identity
    let registered ← registerAtCapability hostApi identity credential
    if !registered then return ""
    resetIdentity identity
    let adopted ← adoptCredentialFor identity credential
    if !adopted then return ""
    return credential

def adoptConsumerCredential (consumerApi : Option LogosAPI) (credential : Token) :
    ConsumerProg Unit := do
  match consumerApi with
  | none => return ()
  | some consumerApi =>
    if credential = "" then return ()
    match consumerApi.getTokenManager with
    | none => return ()
    | some store =>
      if store ≠ .ring then return ()
      adoptCredential store credential

/-- What a host may do to consumers. A per-target exchange is the store's own client
caching the token it was issued for calling `target`. -/
inductive ConsumerOp where
  | admission (identity : Identity) (hostApi : Option LogosAPI)
  | reissue (consumerApi hostApi : Option LogosAPI)
  | adopt (consumerApi : Option LogosAPI) (credential : Token)
  | exchange (identity : Identity) (target : Key) (token : Token)

inductive ConsumerResult where
  | admitted (consumer : Option ConsumerIdentity)
  | reissued (credential : Token)
  | done

def ConsumerResult.success : ConsumerResult → Bool
  | .admitted consumer => consumer.isSome
  | .reissued credential => credential ≠ ""
  | .done => true

def ConsumerOp.prog : ConsumerOp → ConsumerProg ConsumerResult
  | .admission identity hostApi => do
    let consumer ← admitConsumer identity hostApi
    return .admitted consumer
  | .reissue consumerApi hostApi => do
    let credential ← reissueConsumerCredential consumerApi hostApi
    return .reissued credential
  | .adopt consumerApi credential => do
    adoptConsumerCredential consumerApi credential
    return .done
  | .exchange identity target token => do
    saveToken (.isolated identity) target token
    return .done

def ConsumerOp.call (op : ConsumerOp) : ConsumerProg Unit := do
  let result ← op.prog
  returned result.success

/-- One credential's trip: the call that carried it, for whom, and its value. -/
structure Registration where
  call : Nat
  identity : Identity
  credential : Token

/-- Token stores, what capability_module has accepted, and the logs, newest first. -/
structure ConsumerWorld (σ : Type) where
  tokens : σ
  minted : List Registration := []
  accepted : List Registration := []
  adopted : List Registration := []
  started : List Nat := []
  results : List (Nat × Bool) := []

namespace ConsumerWorld
variable {σ : Type}

def withTokens (w : ConsumerWorld σ) (s : σ) : ConsumerWorld σ := { w with tokens := s }

def mint (w : ConsumerWorld σ) (a : Registration) : ConsumerWorld σ :=
  { w with minted := a :: w.minted }

def accept (w : ConsumerWorld σ) (a : Registration) : ConsumerWorld σ :=
  { w with accepted := a :: w.accepted }

def adopt (w : ConsumerWorld σ) (a : Registration) : ConsumerWorld σ :=
  { w with adopted := a :: w.adopted }

def log (w : ConsumerWorld σ) (t : Nat) (success : Bool) : ConsumerWorld σ :=
  { w with results := (t, success) :: w.results }

section
variable (w : ConsumerWorld σ) (s : σ) (a : Registration)

@[simp] theorem withTokens_tokens : (w.withTokens s).tokens = s := rfl
@[simp] theorem accept_accepted : (w.accept a).accepted = a :: w.accepted := rfl
@[simp] theorem adopt_tokens : (w.adopt a).tokens = w.tokens := rfl

end

def latest (w : ConsumerWorld σ) (i : Identity) : Option Token :=
  (w.accepted.find? (fun a => a.identity = i)).map Registration.credential

/-- A minted value is a UUID: nothing in the system holds it yet. -/
def Fresh (tm : TokenManager σ) (w : ConsumerWorld σ) (c : Token) : Prop :=
  c ≠ "" ∧ c ≠ tm.hostAnchor w.tokens ∧ ∀ a ∈ w.minted, a.credential ≠ c

end ConsumerWorld

/-- The effect of one action of call `t`. capability_module answers a registration as it
likes, and its answer is the acceptance; `getClient` may answer null. -/
def consumerExec {σ : Type} (tm : TokenManager σ) (t : Nat) (w : ConsumerWorld σ) :
    (a : ConsumerAction) → a.Ans → ConsumerWorld σ → Prop
  | .isolateIdentity i, r, w' =>
    r = (tm.isolateIdentity w.tokens i).1 ∧
      w' = w.withTokens (tm.isolateIdentity w.tokens i).2
  | .isIsolated i, r, w' => r = tm.isIsolated w.tokens i ∧ w' = w
  | .mintCredential i, c, w' => w.Fresh tm c ∧ w' = w.mint ⟨t, i, c⟩
  | .getClient _ _, _, w' => w' = w
  | .getToken store k, r, w' => r = tm.getToken w.tokens store k ∧ w' = w
  | .informModuleToken _ i c, r, w' => w' = if r = true then w.accept ⟨t, i, c⟩ else w
  | .resetIdentity i, _, w' => w' = w.withTokens (tm.resetIdentity w.tokens i)
  | .adoptCredentialFor i c, r, w' =>
    r = (tm.adoptCredentialFor w.tokens i c).1 ∧
      w' = if r = true then (w.withTokens (tm.adoptCredentialFor w.tokens i c).2).adopt ⟨t, i, c⟩
        else w.withTokens (tm.adoptCredentialFor w.tokens i c).2
  | .adoptCredential store c, _, w' => w' = w.withTokens (tm.adoptCredential w.tokens store c)
  | .saveToken store k v, _, w' => w' = w.withTokens (tm.saveToken w.tokens store k v)
  | .returned success, _, w' => w' = w.log t success

/-- A per-target token is filed under the target's name in a store that exists. -/
def ConsumerOp.Allowed {σ : Type} (tm : TokenManager σ) (w : ConsumerWorld σ) :
    ConsumerOp → Prop
  | .exchange identity target _ =>
    tm.isIsolated w.tokens identity = true ∧ target ∉ tm.bootstrapKeys
  | _ => True

def consumerSequence {σ : Type} (tm : TokenManager σ) :
    System ConsumerAction.Ans Unit (ConsumerWorld σ) where
  exec := consumerExec tm
  enter t w waiting p w' := t = 0 ∧ waiting = none ∧ w' = w ∧
    ∃ op : ConsumerOp, op.Allowed tm w ∧ p = op.call

/-- Admissions and rotations of one identity, each a call of its own, entered while any
others are under way. -/
def consumerOverlap {σ : Type} (tm : TokenManager σ) (identity : Identity) :
    System ConsumerAction.Ans Unit (ConsumerWorld σ) where
  exec := consumerExec tm
  enter t w waiting p w' := waiting = none ∧ t ∉ w.started ∧
    w' = { w with started := t :: w.started } ∧
    ((∃ hostApi, p = (ConsumerOp.admission identity hostApi).call) ∨
      ∃ consumerApi hostApi, consumerApi.moduleName = identity ∧
        p = (ConsumerOp.reissue (some consumerApi) hostApi).call)

end LogosPluginQt
