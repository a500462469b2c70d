import LogosPluginQt.Interleaving
import LogosPluginQt.Values

namespace LogosPluginQt
open Interleaving
set_option autoImplicit true

structure MethodDecl where
  name : String
  resultReturn : Bool
  returnType : Option String

structure ModuleDecl where
  name : String
  methods : List MethodDecl

namespace ModuleDecl

/-- The methods whose reply becomes a `LogosResult` again. -/
def resultMethods (m : ModuleDecl) : List String :=
  (m.methods.filter fun md => md.resultReturn).map MethodDecl.name

def voidMethods (m : ModuleDecl) : List String :=
  (m.methods.filter fun md => !md.resultReturn && md.returnType.isNone).map MethodDecl.name

end ModuleDecl

structure CallerDoc where
  text : String
  ne : text ≠ ""
  noNul : '\x00' ∉ text.toList

/-- A UUID in the `Id128` format: 32 hexadecimal digits. -/
structure Uuid where
  digits : String
  width : digits.length = 32

structure GlueProvider where
  module : ModuleDecl
  lidlDocument : String
  multi : Bool
  maxWorkers : Int
  uuid : Uuid
  hasLogosAPI : Bool

/-- The process the glue runs in, with all providers it ever loads. -/
structure GlueHost where
  codec : JsonCodec
  protocolVersion : Nat × Nat
  callerUnknownJson : CallerDoc
  pendingCallKey : String
  idealThreadCount : Int
  hostHasInvokable : Bool
  provider : Nat → GlueProvider
  /-- The loaded module image the glue of a provider is linked into. -/
  image : Nat → Nat

namespace GlueProvider

def callIdPrefix (p : GlueProvider) : String := "lc-" ++ p.uuid.digits ++ "-"

def callId (p : GlueProvider) (counter : BitVec 64) : String :=
  p.callIdPrefix ++ toString counter.toNat

end GlueProvider

namespace GlueHost

def callerGuard (h : GlueHost) : Bool :=
  h.protocolVersion.1 > 0 || (h.protocolVersion.1 == 0 && h.protocolVersion.2 ≥ 6)

def workers (h : GlueHost) (p : Nat) : Nat :=
  if (h.provider p).maxWorkers > 0 then (h.provider p).maxWorkers.toNat
  else (max 1 h.idealThreadCount).toNat

def logosApiCurrentCallerJson (h : GlueHost) (scope : Option CallerDoc) : String :=
  if h.callerGuard then (scope.getD h.callerUnknownJson).text else ""

def pending (h : GlueHost) (callId : String) : QVariant :=
  .map [(h.pendingCallKey, .string callId)]

end GlueHost

/-- A deferred call, as the worker's lambda captures it; the call number is a label. -/
structure GlueTask where
  call : Nat
  method : String
  dumped : String
  isVoidMethod : Bool
  isResultMethod : Bool
  callId : String
  eventCb : Option Nat
  callerJson : String

/-- What the glue and the host around it do outside their own frame. Call numbers only
label the actions. -/
inductive GlueAction where
  -- the host's caller scope, opened and closed on the thread of the call
  | openScope (scope : Option CallerDoc)
  | closeScope (hidden : Option CallerDoc)
  | enterCall (p : Nat) (deferred : Bool)
  | returned (call : Nat) (value : QVariant)
  | setEventListener (p : Nat) (listener : Nat)
  | invokeCurrentCallerJson
  | setCallCaller (p call : Nat) (doc : Option String)
  | dispatch (p call : Nat) (method dumped : String)
  | getMethods (p : Nat)
  | fetchAdd (p call : Nat)
  | eventCallback (p call : Nat)
  | startTask (p : Nat) (task : GlueTask)
  | eventCb (listener call : Nat) (callId : String) (value : QVariant)
  | finishTask (p : Nat)
  | terminate

abbrev GlueAction.Ans : GlueAction → Type
  | .openScope _ => Option CallerDoc
  | .enterCall _ _ => Nat
  | .invokeCurrentCallerJson => Option String
  | .dispatch _ _ _ _ | .getMethods _ => Option (List UInt8)
  | .fetchAdd _ _ => BitVec 64
  | .eventCallback _ _ => Option Nat
  | _ => Unit

abbrev GlueProg := Prog GlueAction.Ans

/-- nlohmann's `type_error`: the exception reply handling may raise. -/
inductive ReplyError where
  | typeError
deriving DecidableEq

namespace Glue

def perform (a : GlueAction) : GlueProg a.Ans := .act a .ret

section
variable (h : GlueHost) (p : Nat)

def lists (method : String) (entry : Json) : Bool :=
  match entry.find? "name" with
  | some (.string name) => name = method
  | _ => false

def unknownMethod (method : String) : Json :=
  .object [("code", .string "unknown_method"),
    ("message", .string ("unknown method '" ++ method ++ "'")),
    ("origin", .string (h.provider p).module.name)]

def lidlNullReply (method : String) (noArgs : Bool) : GlueProg QVariant := do
  if noArgs && (method = "name" || method = "version") then return .invalid
  let json ← perform (.getMethods p)
  match json with
  | none => return .invalid
  | some text =>
    match h.codec.parse text with
    | some (.array (entry :: entries)) =>
      if (entry :: entries).any (lists method) then return .invalid
      else return h.codec.nlohmannToQVariant (unknownMethod h p method)
    | _ => return .invalid

def builtInLidl (args : List QVariant) : QVariant :=
  if args.isEmpty then .string (h.provider p).lidlDocument
  else h.codec.nlohmannToQVariant (.object [("code", .string "invalid_args"),
    ("message", .string ("expected 0 arguments, got " ++ toString args.length)),
    ("origin", .string (h.provider p).module.name)])

/-- The closed set of rejections, as the void arm tests for it. -/
def rejected (j : Json) : Bool :=
  j.isObject && match j.find? "code" with
    | some (.string code) =>
      code = "dispatch_failed" || code = "invalid_args" || code = "unknown_method"
    | _ => false

/-- nlohmann's `value(key, false)`. -/
def boolValue (j : Json) (key : String) : Except ReplyError Bool :=
  match j.find? key with
  | none => .ok false
  | some (.bool b) => .ok b
  | some _ => .error .typeError

def toLogosResult (j : Json) : Except ReplyError QVariant := do
  let success ← boolValue j "success"
  let value := h.codec.nlohmannToQVariant ((j.find? "value").getD .null)
  let error := match j.find? "error" with
    | some (.string e) => QVariant.string e
    | _ => .invalid
  return .logosResult success value error

/-- What follows the dispatch in the single branch. An arm is emitted only for a contract
that has methods for it. -/
def singleReply (methodName : String) (args : List QVariant) (result : Option (List UInt8)) :
    GlueProg (Except ReplyError QVariant) := do
  let m := (h.provider p).module
  match result with
  | none => do
    let value ← lidlNullReply h p methodName args.isEmpty
    return .ok value
  | some text =>
    match h.codec.parse text with
    | none => return .ok .invalid
    | some jResult =>
      if !m.voidMethods.isEmpty && m.voidMethods.contains methodName then
        return .ok (if rejected jResult then h.codec.nlohmannToQVariant jResult else .bool true)
      else if !m.resultMethods.isEmpty && (m.resultMethods.contains methodName &&
          jResult.isObject) then
        return toLogosResult h jResult
      else return .ok (h.codec.nlohmannToQVariant jResult)

def workerReply (task : GlueTask) (result : Option (List UInt8)) :
    GlueProg (Except ReplyError QVariant) := do
  let m := (h.provider p).module
  match result with
  | some text =>
    match h.codec.parse text with
    | none => return .ok .invalid
    | some jResult =>
      let tail :=
        if !m.resultMethods.isEmpty then
          if task.isResultMethod && jResult.isObject then toLogosResult h jResult
          else .ok (h.codec.nlohmannToQVariant jResult)
        else .ok (h.codec.nlohmannToQVariant jResult)
      if !m.voidMethods.isEmpty then
        if task.isVoidMethod then
          return .ok (if rejected jResult then h.codec.nlohmannToQVariant jResult
            else .bool true)
        else return tail
      else return tail
  | none => do
    let value ← lidlNullReply h p task.method (task.dumped = "[]")
    return .ok value

/-- `LogosProviderBase::currentCallerJson`: a call into the host image, by name. -/
def currentCallerJson : GlueProg String := do
  if !h.callerGuard then return ""
  if (h.provider p).hasLogosAPI then
    let caller ← perform .invokeCurrentCallerJson
    match caller with
    | some caller => if caller ≠ "" then return caller else return h.callerUnknownJson.text
    | none => return h.callerUnknownJson.text
  else return h.callerUnknownJson.text

def dumpArgs (args : List QVariant) : String :=
  h.codec.dump (.array (args.map h.codec.qvariantToNlohmann))

/-- `callMethod` as emitted for `concurrency: "single"`. -/
def callMethodSingle (call : Nat) (methodName : String) (args : List QVariant) :
    GlueProg (Except ReplyError QVariant) := do
  if methodName = "lidl" then return .ok (builtInLidl h p args)
  let dumped := dumpArgs h args
  if h.callerGuard then
    let callerJson ← currentCallerJson h p
    perform (.setCallCaller p call (some callerJson))
    let result ← perform (.dispatch p call methodName dumped)
    perform (.setCallCaller p call none)
    singleReply h p methodName args result
  else
    let result ← perform (.dispatch p call methodName dumped)
    singleReply h p methodName args result

def makeTask (call : Nat) (methodName : String) (args : List QVariant) (callId : String)
    (eventCb : Option Nat) (callerJson : String) : GlueTask where
  call := call
  method := methodName
  dumped := dumpArgs h args
  isVoidMethod := (h.provider p).module.voidMethods.contains methodName
  isResultMethod := (h.provider p).module.resultMethods.contains methodName
  callId := callId
  eventCb := eventCb
  callerJson := callerJson

/-- `callMethod` as emitted for `concurrency: "multi"`. -/
def callMethodMulti (call : Nat) (methodName : String) (args : List QVariant) :
    GlueProg (Except ReplyError QVariant) := do
  if methodName = "lidl" then return .ok (builtInLidl h p args)
  let n ← perform (.fetchAdd p call)
  let callId := (h.provider p).callId n
  let eventCb ← perform (.eventCallback p call)
  let callerJson ← currentCallerJson h p
  perform (.startTask p (makeTask h p call methodName args callId eventCb callerJson))
  return .ok (h.pending callId)

def callMethod (call : Nat) (methodName : String) (args : List QVariant) :
    GlueProg (Except ReplyError QVariant) :=
  if (h.provider p).multi then callMethodMulti h p call methodName args
  else callMethodSingle h p call methodName args

def receive (methodName : String) (args : List QVariant) : GlueProg Unit := do
  let call ← perform (.enterCall p ((h.provider p).multi && methodName ≠ "lidl"))
  let reply ← callMethod h p call methodName args
  match reply with
  | .ok value => perform (.returned call value)
  | .error _ => return ()

def deliver (scope : Option CallerDoc) (methodName : String) (args : List QVariant) :
    GlueProg Unit := do
  let hidden ← perform (.openScope scope)
  receive h p methodName args
  perform (.closeScope hidden)

/-- The worker's dispatch: the thread that runs the handler is the one that is told. -/
def workerDispatch (task : GlueTask) : GlueProg (Option (List UInt8)) := do
  if h.callerGuard then
    perform (.setCallCaller p task.call (some task.callerJson))
    let result ← perform (.dispatch p task.call task.method task.dumped)
    perform (.setCallCaller p task.call none)
    return result
  else perform (.dispatch p task.call task.method task.dumped)

/-- The completion event. An exception that leaves the worker's lambda ends the process. -/
def complete (task : GlueTask) : Except ReplyError QVariant → GlueProg Unit
  | .error _ => perform .terminate
  | .ok value =>
    match task.eventCb with
    | some listener => perform (.eventCb listener task.call task.callId value)
    | none => return ()

def runTask (task : GlueTask) : GlueProg Unit := do
  let result ← workerDispatch h p task
  let value ← workerReply h p task result
  complete task value
  perform (.finishTask p)

end

end Glue

end LogosPluginQt
