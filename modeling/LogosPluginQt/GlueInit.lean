import LogosPluginQt.InboundTokens

namespace LogosPluginQt
open Interleaving
set_option autoImplicit true

/-- The stores of the host's image, the two directions apart. -/
structure HostStores (σ : Type) extends InboundStore σ where
  saved_frame : ∀ {s caller token caller'}, caller' ≠ caller →
    inbound (saveInboundToken s caller token) caller' = inbound s caller'

/-- The stores of a module image: `outbound` is what the module presents to a peer, and
`logosModuleAcceptToken` is `lp_token_save` behind the C ABI. Like the inbound door, one that
refuses may have written or not. -/
structure ImageStores (τ : Type) extends ModuleImage τ where
  outbound : τ → CString → Option CString
  accept_target : ∀ s target token,
    outbound (logosModuleAcceptToken s target token).2 target = some token ∨
      ((logosModuleAcceptToken s target token).1 ≠ 0 ∧
        outbound (logosModuleAcceptToken s target token).2 target = outbound s target)
  accept_frame : ∀ {s target token k}, k ≠ target →
    outbound (logosModuleAcceptToken s target token).2 k = outbound s k
  accept_inbound : ∀ s target token k,
    inbound (logosModuleAcceptToken s target token).2 k = inbound s k
  filed_frame : ∀ {s caller token k}, k ≠ caller →
    inbound (fileInbound s caller token) k = inbound s k
  filed_outbound : ∀ s caller token k, outbound (fileInbound s caller token) k = outbound s k

section
variable {τ : Type} (image : ImageStores τ) (t : τ) (caller token : CString)

theorem ImageStores.inbound_caller :
    image.inbound (image.logosModuleAcceptInboundToken t caller token).2 caller = some token ∨
      image.inbound (image.logosModuleAcceptInboundToken t caller token).2 caller =
        image.inbound t caller := by
  unfold ModuleImage.logosModuleAcceptInboundToken
  dsimp only
  split
  · exact .inl (image.filed ..)
  · exact .inr rfl

theorem ImageStores.inbound_frame {k : CString} (hk : k ≠ caller) :
    image.inbound (image.logosModuleAcceptInboundToken t caller token).2 k =
      image.inbound t k := by
  unfold ModuleImage.logosModuleAcceptInboundToken
  dsimp only
  split
  · exact image.filed_frame hk
  · rfl

theorem ImageStores.inbound_outbound (k : CString) :
    image.outbound (image.logosModuleAcceptInboundToken t caller token).2 k =
      image.outbound t k := by
  unfold ModuleImage.logosModuleAcceptInboundToken
  dsimp only
  split
  · exact image.filed_outbound ..
  · rfl

end

/-- What the host stamps on the `LogosAPI` object before it registers the module. -/
structure ApiProperties where
  authToken : String
  hostServices : String
  modulePath : String
  instanceId : String
  instancePersistencePath : String

structure InitHost (σ τ : Type) where
  version : Nat × Nat
  moduleName : String
  host : HostStores σ
  image : ImageStores τ
  api : Option ApiProperties
  hasTokenManager : Bool

def bootstrapNames : List CString := [constData "core", constData "capability_module"]

namespace InitHost

def authToken (h : InitHost σ τ) : String := (h.api.map ApiProperties.authToken).getD ""

def hostServices (h : InitHost σ τ) : String := (h.api.map ApiProperties.hostServices).getD ""

def hostServicesGuard (h : InitHost σ τ) : Bool :=
  h.version.1 > 0 || (h.version.1 == 0 && h.version.2 ≥ 3)

def asksServices (h : InitHost σ τ) : Bool := h.hostServicesGuard && h.hostServices != ""

end InitHost

/-- What the emitted provider does outside its own frame while it is brought up, and the
write of the module's own client. -/
inductive InitAction where
  | setLogosAPI
  | acceptToken (target token : CString)
  | grantHostServices (services : CString)
  | qWarning (text services : String)
  | setContext (modulePath instanceId instancePersistencePath : CString)
  | storeEventCallback
  | setEmitCallback
  | saveInboundToken (moduleName : String) (token : Token)
  | acceptInboundToken (caller token : CString)
  | lpTokenSave (target token : CString)

abbrev InitAction.Ans : InitAction → Type
  | .acceptToken _ _ | .grantHostServices _ | .acceptInboundToken _ _ => Int
  | .saveInboundToken _ _ => Bool
  | _ => Unit

abbrev InitProg := Prog InitAction.Ans

namespace GlueInit
variable {σ τ : Type} (h : InitHost σ τ)

def perform (a : InitAction) : InitProg a.Ans := .act a .ret

/-- The token first, under both role labels; what the door answers is not looked at. -/
def seedTokens : InitProg Unit :=
  if h.authToken = "" then return ()
  else do
    let _ ← perform (.acceptToken (constData "core") (constData h.authToken))
    let _ ← perform (.acceptToken (constData "capability_module") (constData h.authToken))
    return ()

/-- The host services next, where the protocol has a call for them. -/
def forwardHostServices : InitProg Unit :=
  if !h.asksServices then return ()
  else do
    let refused ← perform (.grantHostServices (constData h.hostServices))
    if refused = 0 then return ()
    else perform (.qWarning ("[" ++ h.moduleName ++ "] host services refused:") h.hostServices)

def forwardContext (api : ApiProperties) : InitProg Unit :=
  perform (.setContext (constData api.modulePath) (constData api.instanceId)
    (constData api.instancePersistencePath))

def onInit : InitProg Unit :=
  match h.api with
  | none => return ()
  | some api => do
    seedTokens h
    forwardHostServices h
    forwardContext api

def init : InitProg Unit := do
  perform .setLogosAPI
  onInit h

def setEventListener : InitProg Unit := do
  perform .storeEventCallback
  perform .setEmitCallback

def informImage (moduleName : String) (token : Token) : InitProg Int :=
  if inboundTokenGuard h.version then
    perform (.acceptInboundToken (constData moduleName) (constData token))
  else perform (.acceptToken (constData moduleName) (constData token))

def informModuleToken (moduleName : String) (token : Token) : InitProg Bool := do
  let hostOk ← perform (.saveInboundToken moduleName token)
  let refused ← informImage h moduleName token
  return hostOk && refused == 0

end GlueInit

/-- The two images, what the module has been told, and what has happened so far. -/
structure InitWorld (σ τ : Type) where
  stores : TwoImages σ τ
  hasLogosAPI : Bool := false
  context : Option (CString × CString × CString) := none
  emitCallback : Bool := false
  informed : List (String × Token) := []
  saved : List (CString × CString) := []
  refused : List CString := []
  asked : List CString := []

section
variable {σ τ : Type}

namespace InitWorld

def outbound (h : InitHost σ τ) (w : InitWorld σ τ) (k : CString) : Option CString :=
  h.image.outbound w.stores.image k

def inbound (h : InitHost σ τ) (w : InitWorld σ τ) (k : CString) : Option CString :=
  h.image.inbound w.stores.image k

def hostInbound (h : InitHost σ τ) (w : InitWorld σ τ) (caller : String) : Option Token :=
  h.host.inbound w.stores.host caller

def acceptToken (h : InitHost σ τ) (w : InitWorld σ τ) (target token : CString) : InitWorld σ τ :=
  let door := h.image.logosModuleAcceptToken w.stores.image target token
  { w with
    stores := ⟨w.stores.host, door.2⟩
    refused := if door.1 = 0 then w.refused else target :: w.refused }

def acceptInboundToken (h : InitHost σ τ) (w : InitWorld σ τ) (caller token : CString) :
    InitWorld σ τ :=
  { w with stores :=
      ⟨w.stores.host, (h.image.logosModuleAcceptInboundToken w.stores.image caller token).2⟩ }

def saveInboundToken (h : InitHost σ τ) (w : InitWorld σ τ) (moduleName : String)
    (token : Token) : Bool × InitWorld σ τ :=
  let saved := LogosProviderBase.informModuleToken h.host.toInboundStore
    ⟨w.hasLogosAPI, h.hasTokenManager⟩ w.stores.host moduleName token
  (saved.1, { w with
    stores := ⟨saved.2, w.stores.image⟩
    informed := (moduleName, token) :: w.informed })

def lpTokenSave (h : InitHost σ τ) (w : InitWorld σ τ) (target token : CString) : InitWorld σ τ :=
  { w with
    stores := ⟨w.stores.host, (h.image.logosModuleAcceptToken w.stores.image target token).2⟩
    saved := (target, token) :: w.saved }

end InitWorld

def initExec (h : InitHost σ τ) (_ : Nat) (w : InitWorld σ τ) :
    (a : InitAction) → a.Ans → InitWorld σ τ → Prop
  | .setLogosAPI, _, w' => w' = { w with hasLogosAPI := h.api.isSome }
  | .acceptToken target token, answer, w' =>
    answer = (h.image.logosModuleAcceptToken w.stores.image target token).1 ∧
      w' = w.acceptToken h target token
  | .grantHostServices services, _, w' => w' = { w with asked := services :: w.asked }
  | .qWarning _ _, _, w' | .storeEventCallback, _, w' => w' = w
  | .setContext path id persistence, _, w' =>
    w' = { w with context := some (path, id, persistence) }
  | .setEmitCallback, _, w' => w' = { w with emitCallback := true }
  | .saveInboundToken moduleName token, ok, w' =>
    (ok, w') = w.saveInboundToken h moduleName token
  | .acceptInboundToken caller token, answer, w' =>
    answer = (h.image.logosModuleAcceptInboundToken w.stores.image caller token).1 ∧
      w' = w.acceptInboundToken h caller token
  | .lpTokenSave target token, _, w' => w' = w.lpTokenSave h target token

/-- What may start on any thread, also from inside whatever the thread waits in: the host
brings the module up, sets its listener or delivers a caller's token, and the module's own
client files what it was granted for a peer. -/
inductive InitEnter (h : InitHost σ τ) (w : InitWorld σ τ) : InitProg Unit → Prop where
  | init : InitEnter h w (GlueInit.init h)
  | setEventListener : InitEnter h w GlueInit.setEventListener
  | informModuleToken (moduleName : String) (token : Token) :
      InitEnter h w (GlueInit.informModuleToken h moduleName token >>= fun _ => .ret ())
  | lpTokenSave (target token : CString) : target ∉ bootstrapNames →
      InitEnter h w (GlueInit.perform (.lpTokenSave target token))

def initSystem (h : InitHost σ τ) : System InitAction.Ans Unit (InitWorld σ τ) where
  exec := initExec h
  enter _ w _ p w' := InitEnter h w p ∧ w' = w

inductive InitPhase where
  | start
  | core
  | seeded
  | served
  | informing (moduleName : String) (token : Token)
  | forwarding (moduleName : String) (token : Token)
  | saving (target : CString)
  | listening
  | done

namespace InitPhase

def next (h : InitHost σ τ) : InitPhase → (a : InitAction) → a.Ans → Option InitPhase
  | .start, .setLogosAPI, _ => some .start
  | .seeded, .setLogosAPI, _ => some .seeded
  | .served, .setLogosAPI, _ => some .served
  | .start, .acceptToken target token, _ =>
    if target = constData "core" ∧ token = constData h.authToken then some .core else none
  | .core, .acceptToken target token, _ =>
    if target = constData "capability_module" ∧ token = constData h.authToken then
      some (if h.asksServices then .seeded else .served)
    else none
  | .seeded, .grantHostServices services, _ =>
    if services = constData h.hostServices then some .served else none
  | .served, .qWarning _ _, _ => some .served
  | .served, .setContext _ _ _, _ => some .done
  | .informing moduleName token, .saveInboundToken moduleName' token', _ =>
    if moduleName' = moduleName ∧ token' = token then some (.forwarding moduleName token)
    else none
  | .forwarding moduleName token, .acceptInboundToken caller token', _ =>
    if inboundTokenGuard h.version = true ∧ caller = constData moduleName ∧
        token' = constData token then some .done
    else none
  | .forwarding moduleName token, .acceptToken target token', _ =>
    if inboundTokenGuard h.version = false ∧ target = constData moduleName ∧
        token' = constData token then some .done
    else none
  | .saving target, .lpTokenSave target' _, _ => if target' = target then some .done else none
  | .listening, .storeEventCallback, _ => some .listening
  | .listening, .setEmitCallback, _ => some .done
  | _, _, _ => none

inductive Move (h : InitHost σ τ) : InitPhase → (a : InitAction) → a.Ans → InitPhase → Prop
  | attach (κ r) : Move h κ .setLogosAPI r κ
  | seedCore (r) :
      Move h .start (.acceptToken (constData "core") (constData h.authToken)) r .core
  | seedCapability (r) :
      Move h .core (.acceptToken (constData "capability_module") (constData h.authToken)) r
        (if h.asksServices then .seeded else .served)
  | grant (r) : Move h .seeded (.grantHostServices (constData h.hostServices)) r .served
  | warn (text services r) : Move h .served (.qWarning text services) r .served
  | context (path id persistence r) :
      Move h .served (.setContext path id persistence) r .done
  | informHost (moduleName token r) :
      Move h (.informing moduleName token) (.saveInboundToken moduleName token) r
        (.forwarding moduleName token)
  | inboundDoor (moduleName token r) : inboundTokenGuard h.version = true →
      Move h (.forwarding moduleName token)
        (.acceptInboundToken (constData moduleName) (constData token)) r .done
  | outboundDoor (moduleName token r) : inboundTokenGuard h.version = false →
      Move h (.forwarding moduleName token)
        (.acceptToken (constData moduleName) (constData token)) r .done
  | save (target token r) : Move h (.saving target) (.lpTokenSave target token) r .done
  | storeCallback (r) : Move h .listening .storeEventCallback r .listening
  | setEmit (r) : Move h .listening .setEmitCallback r .done

theorem next_move {h : InitHost σ τ} {κ κ' : InitPhase} {a : InitAction} {r : a.Ans}
    (hn : next h κ a r = some κ') : Move h κ a r κ' := by
  unfold next at hn
  split at hn
  case h_15 => cases hn
  all_goals
    first
      | obtain rfl := Option.some.inj hn
        constructor
      | obtain ⟨hc, rfl⟩ := (Option.ite_none_right_eq_some.trans
          (and_congr_right fun _ => Option.some_inj)).1 hn
        first
          | obtain ⟨hg, rfl, rfl⟩ := hc
            constructor
            exact hg
          | obtain ⟨rfl, rfl⟩ := hc
            constructor

def mayReturn : InitPhase → Prop
  | .served | .done => True
  | _ => False

def initial (h : InitHost σ τ) : InitPhase :=
  if h.authToken = "" then (if h.asksServices then .seeded else .served) else .start

end InitPhase

open InitPhase

section
variable {h : InitHost σ τ}

theorem seedTokens_follows :
    Follows (next h) (fun _ κ => κ = if h.asksServices then .seeded else .served)
      (GlueInit.seedTokens h) (initial h) := by
  unfold GlueInit.seedTokens initial
  by_cases htoken : h.authToken = ""
  · rw [if_pos htoken, if_pos htoken]
    exact rfl
  · rw [if_neg htoken, if_neg htoken]
    intro _
    refine ⟨.core, if_pos ⟨rfl, rfl⟩, fun _ => ?_⟩
    exact ⟨_, if_pos ⟨rfl, rfl⟩, rfl⟩

theorem forwardHostServices_follows :
    Follows (next h) (fun _ κ => κ = .served) (GlueInit.forwardHostServices h)
      (if h.asksServices then .seeded else .served) := by
  unfold GlueInit.forwardHostServices
  cases hasks : h.asksServices with
  | false => exact rfl
  | true =>
    intro refused
    refine ⟨.served, if_pos rfl, ?_⟩
    by_cases hr : refused = 0
    · simp only [Prog.bind, hr, ↓reduceIte]
      exact rfl
    · simp only [Prog.bind, hr, ↓reduceIte]
      exact fun _ => ⟨.served, rfl, rfl⟩

theorem onInit_follows :
    Follows (next h) (fun _ κ => κ.mayReturn) (GlueInit.onInit h) (initial h) := by
  unfold GlueInit.onInit
  cases hapi : h.api with
  | none =>
    have htoken : h.authToken = "" := by rw [InitHost.authToken, hapi]; rfl
    have hasks : h.asksServices = false := by
      rw [InitHost.asksServices, InitHost.hostServices, hapi, Bool.and_eq_false_iff]
      exact .inr rfl
    rw [initial, if_pos htoken, hasks]
    exact trivial
  | some api =>
    apply follows_bind
    apply seedTokens_follows.mono
    rintro _ κ rfl
    apply follows_bind
    apply forwardHostServices_follows.mono
    rintro _ κ rfl
    exact fun _ => ⟨.done, rfl, trivial⟩

theorem init_follows :
    Follows (next h) (fun _ κ => κ.mayReturn) (GlueInit.init h) (initial h) := by
  intro _
  refine ⟨initial h, ?_, onInit_follows⟩
  unfold initial
  split
  · split <;> rfl
  · rfl

theorem setEventListener_follows :
    Follows (next h) (fun _ κ => κ.mayReturn) GlueInit.setEventListener .listening :=
  fun _ => ⟨.listening, rfl, fun _ => ⟨.done, rfl, trivial⟩⟩

theorem informModuleToken_follows (moduleName : String) (token : Token) :
    Follows (next h) (fun _ κ => κ.mayReturn)
      (GlueInit.informModuleToken h moduleName token >>= fun _ => .ret ())
      (.informing moduleName token) := by
  intro hostOk
  refine ⟨.forwarding moduleName token, if_pos ⟨rfl, rfl⟩, ?_⟩
  unfold GlueInit.informImage
  cases hg : inboundTokenGuard h.version with
  | false => exact fun _ => ⟨.done, if_pos ⟨hg, rfl, rfl⟩, trivial⟩
  | true => exact fun _ => ⟨.done, if_pos ⟨hg, rfl, rfl⟩, trivial⟩

theorem lpTokenSave_follows (target token : CString) :
    Follows (next h) (fun _ κ => κ.mayReturn)
      (GlueInit.perform (.lpTokenSave target token)) (.saving target) :=
  fun _ => ⟨.done, if_pos rfl, trivial⟩

/-- Run by itself, the delivery is the one that was modelled as a single step. -/
theorem informModuleToken_runs {w w' : InitWorld σ τ} {t : Nat} {moduleName : String}
    {token : Token} {ok : Bool}
    (hr : Runs (initExec h t) w (GlueInit.informModuleToken h moduleName token) ok w') :
    (ok, w'.stores) = Glue.informModuleToken h.host.toInboundStore h.image.toModuleImage
      h.version ⟨w.hasLogosAPI, h.hasTokenManager⟩ w.stores moduleName token := by
  obtain ⟨hostOk, w₁, hhost, hr⟩ := runs_act.1 hr
  obtain ⟨rfl, rfl⟩ := Prod.mk.inj hhost
  unfold GlueInit.informImage at hr
  unfold Glue.informModuleToken acceptDoor
  cases hg : inboundTokenGuard h.version with
  | false =>
    simp only [hg, Bool.false_eq_true, ↓reduceIte] at hr ⊢
    obtain ⟨_, w₂, ⟨rfl, rfl⟩, hr⟩ := runs_act.1 hr
    obtain ⟨rfl, rfl⟩ := runs_ret.1 hr
    rfl
  | true =>
    simp only [hg, ↓reduceIte] at hr ⊢
    obtain ⟨_, w₂, ⟨rfl, rfl⟩, hr⟩ := runs_act.1 hr
    obtain ⟨rfl, rfl⟩ := runs_ret.1 hr
    rfl

end

end

end LogosPluginQt
