import LogosPluginQt.Glue
import Mathlib.Data.List.Nodup

namespace LogosPluginQt
open Interleaving Glue
set_option autoImplicit true

/-- What is recorded of a call when it is entered; its number is its place in the record. -/
structure GlueCall where
  provider : Nat
  deferred : Bool
  /-- The document the caller scope of its thread stood for. -/
  caller : CallerDoc
  /-- The listener its provider had. -/
  listener : Option Nat

structure Completion where
  call : Nat
  listener : Nat
  callId : String
  value : QVariant

structure GlueWorld where
  scope : Nat → Option CallerDoc := fun _ => none
  callers : Nat → Nat → List String := fun _ _ => []
  callCounter : Nat → BitVec 64 := fun _ => 0
  eventCallback : Nat → Option Nat := fun _ => none
  queue : Nat → List GlueTask := fun _ => []
  busy : Nat → List Nat := fun _ => []
  calls : List GlueCall := []
  -- calls that have yet to copy the callback
  copying : List Nat := []
  draws : Nat → List (Nat × BitVec 64) := fun _ => []
  returned : List (Nat × QVariant) := []
  completions : List Completion := []

namespace GlueHost

def attributed (h : GlueHost) (p : Nat) (scope : Option CallerDoc) : CallerDoc :=
  if (h.provider p).hasLogosAPI && h.hostHasInvokable then scope.getD h.callerUnknownJson
  else h.callerUnknownJson

end GlueHost

namespace GlueWorld

/-- `logos_module_set_call_caller`: a document is pushed, NULL pops. -/
def setCallCaller (w : GlueWorld) (image t : Nat) (doc : Option String) : GlueWorld :=
  { w with callers := Function.update w.callers image (Function.update (w.callers image) t
      (match doc with
        | some doc => doc :: w.callers image t
        | none => (w.callers image t).tail)) }

def enterCall (w : GlueWorld) (call : GlueCall) : GlueWorld :=
  { w with
    calls := w.calls ++ [call]
    copying := if call.deferred then w.calls.length :: w.copying else w.copying }

def fetchAdd (w : GlueWorld) (p call : Nat) : GlueWorld :=
  { w with
    callCounter := Function.update w.callCounter p (w.callCounter p + 1)
    draws := Function.update w.draws p ((call, w.callCounter p) :: w.draws p) }

def copyEventCallback (w : GlueWorld) (call : Nat) : GlueWorld :=
  { w with copying := w.copying.filter (· ≠ call) }

def startTask (w : GlueWorld) (p : Nat) (task : GlueTask) : GlueWorld :=
  { w with queue := Function.update w.queue p (w.queue p ++ [task]) }

def takeTask (w : GlueWorld) (p t : Nat) (queue : List GlueTask) : GlueWorld :=
  { w with
    queue := Function.update w.queue p queue
    busy := Function.update w.busy p (t :: w.busy p) }

def finishTask (w : GlueWorld) (p t : Nat) : GlueWorld :=
  { w with busy := Function.update w.busy p ((w.busy p).filter (· ≠ t)) }

/-- Call `n` has drawn `callId` from the counter of provider `p`. -/
def Drawn (h : GlueHost) (w : GlueWorld) (p n : Nat) (callId : String) : Prop :=
  ∃ value, (n, value) ∈ w.draws p ∧ (h.provider p).callId value = callId

/-- Call `n` was made on provider `p` while it had the given listener. -/
def Made (w : GlueWorld) (p n : Nat) (listener : Option Nat) : Prop :=
  ∃ call, w.calls[n]? = some call ∧ call.provider = p ∧ call.listener = listener

def CallsKept (w w' : GlueWorld) : Prop :=
  ∀ (n : Nat) (call : GlueCall), w.calls[n]? = some call → w'.calls[n]? = some call

end GlueWorld

open GlueWorld

/-- What an action answers on thread `t`, and what it changes. The C ABI answers anything. A
callback is not replaced under a call that is about to copy it, and nothing goes on where an
exception has ended the process. -/
def glueExec (h : GlueHost) (t : Nat) (w : GlueWorld) : (a : GlueAction) → a.Ans → GlueWorld → Prop
  | .openScope doc, hidden, w' =>
    hidden = w.scope t ∧ w' = { w with scope := Function.update w.scope t doc }
  | .closeScope hidden, _, w' => w' = { w with scope := Function.update w.scope t hidden }
  | .enterCall p deferred, call, w' =>
    call = w.calls.length ∧
      w' = w.enterCall ⟨p, deferred, h.attributed p (w.scope t), w.eventCallback p⟩
  | .returned call value, _, w' => w' = { w with returned := (call, value) :: w.returned }
  | .setEventListener p listener, _, w' =>
    (∀ n ∈ w.copying, ∀ call, w.calls[n]? = some call → call.provider ≠ p) ∧
      w' = { w with eventCallback := Function.update w.eventCallback p (some listener) }
  | .invokeCurrentCallerJson, caller, w' =>
    (caller = if h.hostHasInvokable then some (h.logosApiCurrentCallerJson (w.scope t))
      else none) ∧ w' = w
  | .setCallCaller p _ doc, _, w' => w' = w.setCallCaller (h.image p) t doc
  | .dispatch _ _ _ _, _, w' | .getMethods _, _, w' => w' = w
  | .fetchAdd p call, value, w' => value = w.callCounter p ∧ w' = w.fetchAdd p call
  | .eventCallback p call, listener, w' =>
    listener = w.eventCallback p ∧ w' = w.copyEventCallback call
  | .startTask p task, _, w' => w' = w.startTask p task
  | .eventCb listener call callId value, _, w' =>
    w' = { w with completions := ⟨call, listener, callId, value⟩ :: w.completions }
  | .finishTask p, _, w' => w' = w.finishTask p t
  | .terminate, _, _ => False

namespace GlueAction

def leavesGlue : GlueAction → Bool
  | .dispatch _ _ _ _ | .getMethods _ | .eventCb _ _ _ _ => true
  | _ => false

end GlueAction

/-- What may start on a thread: a call, with or without a scope of its own, or a change of
listener, also from inside the code the glue called; and where the thread is idle and the
pool below its size, any task that is queued. -/
inductive GlueEnter (h : GlueHost) (t : Nat) (w : GlueWorld) :
    Option GlueAction → GlueProg Unit → GlueWorld → Prop where
  | receive {within : Option GlueAction} (p : Nat) (methodName : String)
      (args : List QVariant) : (∀ a ∈ within, a.leavesGlue = true) →
      GlueEnter h t w within (receive h p methodName args) w
  | deliver {within : Option GlueAction} (p : Nat) (scope : Option CallerDoc)
      (methodName : String) (args : List QVariant) : (∀ a ∈ within, a.leavesGlue = true) →
      GlueEnter h t w within (deliver h p scope methodName args) w
  | setEventListener {within : Option GlueAction} (p listener : Nat) :
      (∀ a ∈ within, a.leavesGlue = true) →
      GlueEnter h t w within (perform (.setEventListener p listener)) w
  | work (p : Nat) (before after : List GlueTask) {task : GlueTask} :
      w.queue p = before ++ task :: after → (w.busy p).length < h.workers p →
      GlueEnter h t w none (runTask h p task) (w.takeTask p t (before ++ after))

def glueSystem (h : GlueHost) : System GlueAction.Ans Unit GlueWorld where
  exec := glueExec h
  enter := GlueEnter h

abbrev GlueConfig := Config GlueAction.Ans Unit GlueWorld

section
variable {h : GlueHost} {w w' : GlueWorld} {t : Nat} {a : GlueAction} {r : a.Ans}

theorem getElem?_concat {calls : List GlueCall} {call call' : GlueCall} {n : Nat}
    (hn : calls[n]? = some call) : (calls ++ [call'])[n]? = some call := by
  rw [List.getElem?_append_left (List.getElem?_eq_some_iff.1 hn).1, hn]

theorem glueExec_calls (he : glueExec h t w a r w') : CallsKept w w' := by
  intro n call hn
  cases a with
  | enterCall p deferred =>
    obtain ⟨_, rfl⟩ := he
    exact getElem?_concat hn
  | openScope | setEventListener | invokeCurrentCallerJson | fetchAdd | eventCallback =>
    obtain ⟨_, rfl⟩ := he
    exact hn
  | terminate => cases he
  | _ =>
    obtain rfl := he
    exact hn

theorem glueEnter_calls {within : Option GlueAction} {prog : GlueProg Unit}
    (he : GlueEnter h t w within prog w') : CallsKept w w' := by
  cases he <;> exact fun _ _ => id

/-- Calls come back in only from code the glue has called. -/
theorem GlueEnter.leavesGlue {prog : GlueProg Unit} (he : GlueEnter h t w (some a) prog w') :
    a.leavesGlue = true := by
  cases he with
  | receive _ _ _ ha | deliver _ _ _ _ ha | setEventListener _ _ ha => exact ha a rfl

theorem steps_calls {c c' : GlueConfig}
    (hs : Relation.ReflTransGen (Step (glueSystem h)) c c') : CallsKept c.shared c'.shared := by
  induction hs with
  | refl => exact fun _ _ => id
  | tail _ hs ih =>
    intro n call hn
    cases hs with
    | run _ he => exact glueExec_calls he n call (ih n call hn)
    | leave => exact ih n call hn
    | enter _ he | nest _ he => exact glueEnter_calls he n call (ih n call hn)

end

/-! Reply handling keeps to any phase in which it may ask what the module lists. -/

section
variable {K : Type} {next : K → (a : GlueAction) → a.Ans → Option K} {κ : K}
  {h : GlueHost} {p : Nat}

theorem lidlNullReply_follows (hκ : ∀ r, next κ (.getMethods p) r = some κ)
    (method : String) (noArgs : Bool) :
    Follows next (fun _ κ' => κ' = κ) (lidlNullReply h p method noArgs) κ := by
  unfold lidlNullReply
  split
  · rfl
  · intro json
    refine ⟨κ, hκ json, ?_⟩
    cases json with
    | none => rfl
    | some text =>
      simp only [Prog.bind]
      split
      · split <;> rfl
      · rfl

theorem singleReply_follows (hκ : ∀ r, next κ (.getMethods p) r = some κ)
    (methodName : String) (args : List QVariant) (result : Option (List UInt8)) :
    Follows next (fun _ κ' => κ' = κ) (singleReply h p methodName args result) κ := by
  cases result with
  | none =>
    apply follows_bind
    apply (lidlNullReply_follows hκ methodName args.isEmpty).mono
    intro value κ' he
    exact he
  | some text =>
    simp only [singleReply]
    split
    · rfl
    · split
      · rfl
      · split <;> rfl

theorem workerReply_follows (hκ : ∀ r, next κ (.getMethods p) r = some κ) (task : GlueTask)
    (result : Option (List UInt8)) :
    Follows next (fun _ κ' => κ' = κ) (workerReply h p task result) κ := by
  cases result with
  | none =>
    apply follows_bind
    apply (lidlNullReply_follows hκ task.method (decide (task.dumped = "[]"))).mono
    intro value κ' he
    exact he
  | some text =>
    simp only [workerReply]
    split
    · rfl
    · split
      · split <;> rfl
      · rfl

end

end LogosPluginQt
