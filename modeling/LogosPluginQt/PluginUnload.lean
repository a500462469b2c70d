import LogosPluginQt.Interleaving

namespace LogosPluginQt
open Interleaving
set_option autoImplicit true

/-- What the teardown of a plugin does to the plugin, the loop and the deadline, and what the
loop and the module do to them. The call of the module is made, and then it is answered. -/
inductive UnloadAction where
  | setUnloadDoneCallback
  | askModule
  | logosModuleAboutToUnload
  | connectUnloadFinished
  | connectTimeout
  | startDeadline (graceMs : Nat)
  | exec
  | deadlineIsActive
  | stopDeadline
  | elapsed
  | qWarning (text : String)
  | qDebug (text : String)
  | unloadDone
  | emitUnloadFinished
  | timeout
deriving DecidableEq

abbrev UnloadAction.Ans : UnloadAction → Type
  | .logosModuleAboutToUnload => Int
  | .connectUnloadFinished | .deadlineIsActive => Bool
  | .elapsed => Nat
  | _ => Unit

abbrev UnloadProg := Prog UnloadAction.Ans

namespace PluginUnload

def perform (a : UnloadAction) : UnloadProg a.Ans := .act a .ret

def teardownGuard (version : Nat × Nat) : Bool :=
  version.1 > 0 || (version.1 == 0 && version.2 ≥ 5)

def aboutToUnload (version : Nat × Nat) : UnloadProg Int :=
  if teardownGuard version then do
    perform .setUnloadDoneCallback
    perform .askModule
    perform .logosModuleAboutToUnload
  else return 0

/-- What a plugin class declares of the teardown, as the host finds it by name. -/
structure UnloadSurface where
  aboutToUnload : Option (UnloadProg Int)
  unloadFinished : Bool

def emittedSurface (version : Nat × Nat) : UnloadSurface where
  aboutToUnload := some (aboutToUnload version)
  unloadFinished := true

def reportWait (graceMs : Nat) (finished : Bool) : UnloadProg Unit :=
  if finished then do
    let elapsed ← perform .elapsed
    perform (.qDebug s!"module finished unloading in {elapsed}ms")
  else perform (.qWarning s!"module did not finish unloading within {graceMs}ms; proceeding")

def awaitUnloadFinished (graceMs : Nat) : UnloadProg Unit := do
  let connected ← perform .connectUnloadFinished
  if connected then
    perform .connectTimeout
    perform (.startDeadline graceMs)
    perform .exec
    -- still armed: the loop was quit by the signal
    let finished ← perform .deadlineIsActive
    perform .stopDeadline
    reportWait graceMs finished
  else
    perform (.qWarning ("module returned Asynchronous from aboutToUnload() but has no " ++
      "unloadFinished() signal; not waiting"))

def runPluginAboutToUnload (plugin : Option UnloadSurface) (graceMs : Nat) :
    UnloadProg Unit :=
  match plugin with
  | none => return ()
  | some plugin =>
    match plugin.aboutToUnload with
    | none => return ()
    | some hook => do
      let flag ← hook
      if flag = 0 then return ()
      else awaitUnloadFinished graceMs

end PluginUnload

open PluginUnload

inductive UnloadEvent where
  | unloadFinished
  | timeout
deriving DecidableEq

/-- The plugin's thread at teardown, with a record of what the module has signalled, what was
emitted before anything was connected, what the loop has processed (the latest first) and what
the host has made of it. -/
structure UnloadWorld where
  called : Bool := false
  installed : Bool := false
  asked : Bool := false
  queued : Nat := 0
  quitsOnFinished : Bool := false
  quitsOnTimeout : Bool := false
  deadline : Option Nat := none
  quit : Bool := false
  log : List String := []
  answer : Option Int := none
  signalled : Nat := 0
  early : Nat := 0
  processed : List UnloadEvent := []
  finished : Option Bool := none

namespace UnloadWorld
variable (w : UnloadWorld)

/-- The module signals that it is done. The callback as emitted queues an emission for the thread
of the plugin; nothing comes of a signal into an empty slot. -/
def signal : UnloadWorld :=
  { w with
    queued := if w.installed then w.queued + 1 else w.queued
    signalled := w.signalled + 1 }

/-- An emission quits the loop that is connected to it, and is gone where none is. -/
def emit : UnloadWorld :=
  if w.quitsOnFinished then
    { w with
      queued := w.queued - 1
      processed := .unloadFinished :: w.processed
      quit := true }
  else { w with queued := w.queued - 1, early := w.early + 1 }

/-- The deadline is single-shot: it is no longer armed once it has fired. -/
def expire : UnloadWorld :=
  { w with
    deadline := none
    processed := .timeout :: w.processed
    quit := w.quit || w.quitsOnTimeout }

end UnloadWorld

/-- The effect of an action. `exec` ends where something processed inside it has quit the
loop. -/
def unloadExec (plugin : UnloadSurface) (w : UnloadWorld) :
    (a : UnloadAction) → a.Ans → UnloadWorld → Prop
  | .setUnloadDoneCallback, _, w' => w' = { w with installed := true }
  | .askModule, _, w' => w' = { w with asked := true }
  | .logosModuleAboutToUnload, flag, w' => w' = { w with answer := some flag }
  | .connectUnloadFinished, connected, w' =>
    connected = plugin.unloadFinished ∧ w' = { w with quitsOnFinished := connected }
  | .connectTimeout, _, w' => w' = { w with quitsOnTimeout := true }
  | .startDeadline graceMs, _, w' => w' = { w with deadline := some graceMs }
  | .exec, _, w' => w.quit = true ∧ w' = w
  | .deadlineIsActive, active, w' =>
    active = w.deadline.isSome ∧ w' = { w with finished := some active }
  | .stopDeadline, _, w' => w' = { w with deadline := none }
  | .elapsed, _, w' => w' = w
  | .qWarning text, _, w' | .qDebug text, _, w' => w' = { w with log := text :: w.log }
  | .unloadDone, _, w' => w' = w.signal
  | .emitUnloadFinished, _, w' => 0 < w.queued ∧ w' = w.emit
  | .timeout, _, w' => w.deadline.isSome = true ∧ w' = w.expire

/-- The threads on which, and the places from inside which, a module can be at work. -/
def ModuleAt (t : Nat) (within : Option UnloadAction) : Prop :=
  within = none ∨ t = 0 ∧ (within = some .logosModuleAboutToUnload ∨ within = some .exec)

/-- The host calls the helper once, on the plugin's thread (thread 0), when the outer event loop
has ended; the module, once asked, signals wherever and as often as it likes; and the loop that
has not been quit takes up a queued emission or the deadline, in any order. `hookLoops` says
whether the module runs an event loop of its own inside the hook, which takes up emissions too. -/
inductive UnloadEnter (plugin : UnloadSurface) (graceMs : Nat) (hookLoops : Bool) (t : Nat)
    (w : UnloadWorld) : Option UnloadAction → UnloadProg Unit → UnloadWorld → Prop where
  | host : t = 0 → w.called = false →
      UnloadEnter plugin graceMs hookLoops t w none
        (runPluginAboutToUnload (some plugin) graceMs) { w with called := true }
  | callback {within : Option UnloadAction} : w.asked = true → ModuleAt t within →
      UnloadEnter plugin graceMs hookLoops t w within (perform .unloadDone) w
  | hookEmission : t = 0 → hookLoops = true → 0 < w.queued →
      UnloadEnter plugin graceMs hookLoops t w (some .logosModuleAboutToUnload)
        (perform .emitUnloadFinished) w
  | emission : t = 0 → 0 < w.queued → w.quit = false →
      UnloadEnter plugin graceMs hookLoops t w (some .exec) (perform .emitUnloadFinished) w
  | deadline : t = 0 → w.deadline.isSome = true → w.quit = false →
      UnloadEnter plugin graceMs hookLoops t w (some .exec) (perform .timeout) w

def unloadSystem (version : Nat × Nat) (graceMs : Nat) (hookLoops : Bool) :
    System UnloadAction.Ans Unit UnloadWorld where
  exec _ := unloadExec (emittedSurface version)
  enter := UnloadEnter (emittedSurface version) graceMs hookLoops

/-- How far the host has come, or the module's callback, or the loop with an event. -/
inductive UnloadPhase where
  | start
  | installed
  | asked
  | answered (flag : Int)
  | refused
  | connected
  | bothConnected
  | waiting
  | stopped
  | checked
  | reporting
  | signalling
  | emittingEarly
  | emitting
  | expiring
  | done
deriving DecidableEq

namespace UnloadPhase

def next : UnloadPhase → (a : UnloadAction) → a.Ans → Option UnloadPhase
  | .start, .setUnloadDoneCallback, _ => some .installed
  | .installed, .askModule, _ => some .asked
  | .asked, .logosModuleAboutToUnload, flag => some (.answered flag)
  | .answered _, .connectUnloadFinished, r => some (bif r then .connected else .refused)
  | .refused, .qWarning _, _ => some .refused
  | .connected, .connectTimeout, _ => some .bothConnected
  | .bothConnected, .startDeadline _, _ => some .waiting
  | .waiting, .exec, _ => some .stopped
  | .stopped, .deadlineIsActive, _ => some .checked
  | .checked, .stopDeadline, _ => some .reporting
  | .reporting, .elapsed, _ | .reporting, .qWarning _, _ | .reporting, .qDebug _, _ =>
    some .reporting
  | .signalling, .unloadDone, _ | .emittingEarly, .emitUnloadFinished, _
  | .emitting, .emitUnloadFinished, _ | .expiring, .timeout, _ => some .done
  | _, _, _ => none

inductive Move : UnloadPhase → (a : UnloadAction) → a.Ans → UnloadPhase → Prop
  | install (r) : Move .start .setUnloadDoneCallback r .installed
  | ask (r) : Move .installed .askModule r .asked
  | answer (flag) : Move .asked .logosModuleAboutToUnload flag (.answered flag)
  | connect (flag r) : Move (.answered flag) .connectUnloadFinished r
      (bif r then .connected else .refused)
  | refuse (text r) : Move .refused (.qWarning text) r .refused
  | connectDeadline (r) : Move .connected .connectTimeout r .bothConnected
  | arm (graceMs r) : Move .bothConnected (.startDeadline graceMs) r .waiting
  | leaveLoop (r) : Move .waiting .exec r .stopped
  | check (r) : Move .stopped .deadlineIsActive r .checked
  | disarm (r) : Move .checked .stopDeadline r .reporting
  | measure (r) : Move .reporting .elapsed r .reporting
  | warn (text r) : Move .reporting (.qWarning text) r .reporting
  | debug (text r) : Move .reporting (.qDebug text) r .reporting
  | signal (r) : Move .signalling .unloadDone r .done
  | emitEarly (r) : Move .emittingEarly .emitUnloadFinished r .done
  | emit (r) : Move .emitting .emitUnloadFinished r .done
  | expire (r) : Move .expiring .timeout r .done

theorem next_move {κ κ' : UnloadPhase} {a : UnloadAction} {r : a.Ans}
    (h : next κ a r = some κ') : Move κ a r κ' := by
  unfold next at h
  split at h
  case h_18 => cases h
  all_goals
    obtain rfl := Option.some.inj h
    constructor

/-- The host returns where it has nothing to wait for, or once it has waited. -/
def mayReturn : UnloadPhase → Prop
  | .start | .refused | .reporting | .done => True
  | .answered flag => flag = 0
  | _ => False

end UnloadPhase

open UnloadPhase

theorem reportWait_follows (graceMs : Nat) (finished : Bool) :
    Follows next (fun _ κ => κ.mayReturn) (reportWait graceMs finished) .reporting := by
  cases finished with
  | false => exact fun _ => ⟨_, rfl, trivial⟩
  | true => exact fun _ => ⟨_, rfl, fun _ => ⟨_, rfl, trivial⟩⟩

theorem awaitUnloadFinished_follows (graceMs : Nat) (flag : Int) :
    Follows next (fun _ κ => κ.mayReturn) (awaitUnloadFinished graceMs) (.answered flag) := by
  intro connected
  cases connected with
  | false => exact ⟨_, rfl, fun _ => ⟨_, rfl, trivial⟩⟩
  | true =>
    refine ⟨_, rfl, fun _ => ⟨_, rfl, fun _ => ⟨_, rfl, fun _ => ⟨_, rfl, ?_⟩⟩⟩⟩
    intro finished
    exact ⟨_, rfl, fun _ => ⟨_, rfl, reportWait_follows graceMs finished⟩⟩

theorem runPluginAboutToUnload_follows (version : Nat × Nat) (graceMs : Nat) :
    Follows next (fun _ κ => κ.mayReturn)
      (runPluginAboutToUnload (some (emittedSurface version)) graceMs) .start := by
  apply follows_bind (p := aboutToUnload version)
  unfold aboutToUnload
  split
  · intro _
    refine ⟨_, rfl, ?_⟩
    intro _
    refine ⟨_, rfl, ?_⟩
    intro flag
    refine ⟨_, rfl, ?_⟩
    by_cases hflag : flag = 0
    · subst flag
      trivial
    · simp only [Follows, if_neg hflag]
      exact awaitUnloadFinished_follows graceMs flag
  · trivial

end LogosPluginQt
