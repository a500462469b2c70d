import LogosPluginQt.Draining
import LogosPluginQt.Values

namespace LogosPluginQt
open Interleaving Relation
set_option autoImplicit true

/-- The conversions an event goes through, and what the host sets as its listener; a callback
may be empty. `nlohmannArgsToQVariantList` is given an array. -/
structure EventHost where
  codec : JsonCodec
  fromUtf8 : List UInt8 → String
  nlohmannArgsToQVariantList : List Json → List QVariant
  sets : Option Nat → Prop

/-- What a module passes over the C ABI to emit an event; either may be NULL. -/
structure Emission where
  eventName : Option (List UInt8)
  dataJson : Option (List UInt8)

structure EventDelivery where
  emission : Nat
  listener : Nat
  eventName : String
  data : List QVariant

/-- What the event path does outside its own frame: the two writes of `setEventListener`, the
module's call of what it has been given, and the trampoline's look at its member. -/
inductive EventAction where
  | storeEventCallback (callback : Option Nat)
  | setEmitCallback
  | emit (e : Emission)
  | eventCallback (n : Nat) (eventName : Option (List UInt8))
  | callListener (n : Nat) (eventName : String) (data : List QVariant)

abbrev EventAction.Ans : EventAction → Type
  | .emit _ => Nat × Bool
  | .eventCallback _ _ => Option Nat
  | _ => Unit

abbrev EventProg := Prog EventAction.Ans

namespace GlueEvents
variable (h : EventHost)

def perform (a : EventAction) : EventProg a.Ans := .act a .ret

def setEventListener (callback : Option Nat) : EventProg Unit := do
  perform (.storeEventCallback callback)
  perform .setEmitCallback

/-- What is not an array has no items. -/
def payload (dataJson : Option (List UInt8)) : List Json :=
  let parsed := match dataJson with
    | some text => h.codec.parse text
    | none => some (.array [])
  match parsed with
  | some (.array items) => items
  | _ => []

def data (e : Emission) : List QVariant := h.nlohmannArgsToQVariantList (payload h e.dataJson)

def emitTrampoline (n : Nat) (e : Emission) : EventProg Unit := do
  let callback ← perform (.eventCallback n e.eventName)
  match callback, e.eventName with
  | some _, some eventName => perform (.callListener n (h.fromUtf8 eventName) (data h e))
  | _, _ => return ()

def emit (e : Emission) : EventProg Unit := do
  let installed ← perform (.emit e)
  if installed.2 then emitTrampoline h installed.1 e else return ()

end GlueEvents

/-- The provider's member, what the module has been given, and what has been emitted; the mark
of an emission says that it came as far as the glue. -/
structure EventWorld where
  callback : Option Nat := none
  emitCallback : Bool := false
  -- emissions between their look at the member and the end of the call they make through it
  calling : List Nat := []
  emissions : List (Emission × Bool) := []
  deliveries : List EventDelivery := []

/-- A callback that is empty cannot be called. The member has no lock: its accesses are taken
one at a time, and it is not replaced under an emission that is about to call through it. -/
def eventExec (_ : Nat) (w : EventWorld) : (a : EventAction) → a.Ans → EventWorld → Prop
  | .storeEventCallback callback, _, w' =>
    w.calling = [] ∧ w' = { w with callback := callback }
  | .setEmitCallback, _, w' => w' = { w with emitCallback := true }
  | .emit e, answer, w' => answer = (w.emissions.length, w.emitCallback) ∧
    w' = { w with emissions := w.emissions ++ [(e, w.emitCallback)] }
  | .eventCallback n eventName, answer, w' => answer = w.callback ∧
    w' = { w with calling :=
      if w.callback.isSome && eventName.isSome then n :: w.calling else w.calling }
  | .callListener n eventName data, _, w' => ∃ listener, w.callback = some listener ∧
    w' = { w with
      calling := w.calling.filter (· ≠ n)
      deliveries := ⟨n, listener, eventName, data⟩ :: w.deliveries }

namespace EventAction

def callsHost : EventAction → Bool
  | .callListener _ _ _ => true
  | _ => false

end EventAction

/-- A listener is set from outside the event path: in place of the one that runs it would be
replaced under its own call. -/
inductive EventEnter (h : EventHost) (w : EventWorld) :
    Option EventAction → EventProg Unit → EventWorld → Prop where
  | setEventListener (callback : Option Nat) : h.sets callback →
      EventEnter h w none (GlueEvents.setEventListener callback) w
  | emit {within : Option EventAction} (e : Emission) : (∀ a ∈ within, a.callsHost = true) →
      EventEnter h w within (GlueEvents.emit h e) w

/-- What the event path stands for: one listener at a time, and events that come to it whole. -/
structure EventBus where
  listener : Option Nat := none
  delivered : List EventDelivery := []

inductive EventBus.Step : EventBus → EventBus → Prop where
  | listen (b : EventBus) (listener : Nat) : Step b { b with listener := some listener }
  | deliver (b : EventBus) (d : EventDelivery) : b.listener = some d.listener →
      Step b { b with delivered := d :: b.delivered }

namespace EventWorld

def bus (w : EventWorld) : EventBus :=
  ⟨if w.emitCallback then w.callback else none, w.deliveries⟩

/-- The emission came as far as the glue, and has a name. -/
def owed (w : EventWorld) (n : Nat) : Bool :=
  w.emissions[n]?.any fun emission => emission.2 && emission.1.eventName.isSome

end EventWorld

end LogosPluginQt
