import Mathlib.Data.Nat.Init
import LogosPluginQt.Interleaving

namespace LogosPluginQt
open Interleaving
set_option autoImplicit true

inductive WarmUpSemaphore where
  | entered | release | finished
deriving DecidableEq

inductive Station where
  | taken | entered | passed | finished | ended
deriving DecidableEq

inductive WarmUpAction where
  | setMaxThreadCount (n : Nat)
  | setExpiryTimeout (expiryTimeout : Int)
  | start
  | acquire (s : WarmUpSemaphore) (n : Nat)
  | release (s : WarmUpSemaphore) (n : Nat)
  -- the pool takes note that one of its threads is free again
  | endTask

abbrev WarmUpAction.Ans : WarmUpAction → Type := fun _ => Unit

abbrev WarmUpProg := Prog WarmUpAction.Ans

namespace WarmUp

def perform (a : WarmUpAction) : WarmUpProg Unit := .act a .ret

def startTasks : Nat → WarmUpProg Unit
  | 0 => return
  | left + 1 => do
    perform .start
    startTasks left

def constructProvider (maxWorkers idealThreadCount : Int) : WarmUpProg Unit := do
  let configured := maxWorkers
  let workers := (if configured > 0 then configured else max 1 idealThreadCount).toNat
  perform (.setMaxThreadCount workers)
  perform (.setExpiryTimeout (-1))
  if configured > 0 then
    startTasks workers
    perform (.acquire .entered workers)
    perform (.release .release workers)
    perform (.acquire .finished workers)

def warmUpTask : WarmUpProg Unit := do
  perform (.release .entered 1)
  perform (.acquire .release 1)
  perform (.release .finished 1)
  perform .endTask

end WarmUp

structure WarmUpWorld where
  constructed : Bool := false
  maxThreadCount : Nat
  queued : Nat := 0
  active : Nat := 0
  available : WarmUpSemaphore → Nat := fun _ => 0
  reached : Station → List Nat := fun _ => []

namespace WarmUpWorld

def setAvailable (w : WarmUpWorld) (s : WarmUpSemaphore) (n : Nat) : WarmUpWorld :=
  { w with available := Function.update w.available s n }

def arrive (w : WarmUpWorld) (t : Nat) (s : Station) : WarmUpWorld :=
  { w with reached := Function.update w.reached s (t :: w.reached s) }

/-- Only the lambda releases `entered` and `finished`, and acquires `release`. -/
def note (w : WarmUpWorld) (t : Nat) : WarmUpAction → WarmUpWorld
  | .release .entered _ => w.arrive t .entered
  | .acquire .release _ => w.arrive t .passed
  | .release .finished _ => w.arrive t .finished
  | .endTask => w.arrive t .ended
  | _ => w

end WarmUpWorld

/-- The effect of one action. `acquire` waits until that much is available. -/
def warmUpExec (t : Nat) (w : WarmUpWorld) : (a : WarmUpAction) → a.Ans → WarmUpWorld → Prop
  | .setMaxThreadCount n, _, w' => w' = { w with maxThreadCount := n }
  | .setExpiryTimeout _, _, w' => w' = w
  | .start, _, w' => w' = { w with queued := w.queued + 1 }
  | .acquire s n, _, w' => n ≤ w.available s ∧
    w' = (w.setAvailable s (w.available s - n)).note t (.acquire s n)
  | .release s n, _, w' => w' = (w.setAvailable s (w.available s + n)).note t (.release s n)
  | .endTask, _, w' => w' = { w with active := w.active - 1 }.note t .endTask

def WarmUpWorld.take (w : WarmUpWorld) (t : Nat) : WarmUpWorld :=
  { w with queued := w.queued - 1, active := w.active + 1 }.arrive t .taken

/-- The thread 0 constructs the provider, once. Any other one may be a worker: the pool gives it a
queued task while fewer threads than its maximum are active. -/
def warmUpSystem (maxWorkers idealThreadCount : Int) :
    System WarmUpAction.Ans Unit WarmUpWorld where
  exec := warmUpExec
  enter t w waiting p w' := waiting = none ∧
    ((t = 0 ∧ w.constructed = false ∧ p = WarmUp.constructProvider maxWorkers idealThreadCount ∧
        w' = { w with constructed := true }) ∨
      (t ≠ 0 ∧ 0 < w.queued ∧ w.active < w.maxThreadCount ∧ p = WarmUp.warmUpTask ∧
        w' = w.take t))

def WarmUpWorld.initial (idealThreadCount : Int) : WarmUpWorld where
  maxThreadCount := idealThreadCount.toNat

inductive WarmUpPhase where
  | configure | expiry | starting (left : Nat) | opening | closing | returning
  | task (last : Station)
deriving DecidableEq

namespace WarmUpPhase

def next (n : Nat) : WarmUpPhase → (a : WarmUpAction) → a.Ans → Option WarmUpPhase
  | .configure, .setMaxThreadCount m, _ => if m = n then some .expiry else none
  | .expiry, .setExpiryTimeout _, _ => some (.starting n)
  | .starting (left + 1), .start, _ => some (.starting left)
  | .starting 0, .acquire .entered m, _ => if m = n then some .opening else none
  | .opening, .release .release m, _ => if m = n then some .closing else none
  | .closing, .acquire .finished m, _ => if m = n then some .returning else none
  | .task .taken, .release .entered 1, _ => some (.task .entered)
  | .task .entered, .acquire .release 1, _ => some (.task .passed)
  | .task .passed, .release .finished 1, _ => some (.task .finished)
  | .task .finished, .endTask, _ => some (.task .ended)
  | _, _, _ => none

inductive Move (n : Nat) : WarmUpPhase → WarmUpAction → WarmUpPhase → Prop
  | configure : Move n .configure (.setMaxThreadCount n) .expiry
  | expiry (expiryTimeout) : Move n .expiry (.setExpiryTimeout expiryTimeout) (.starting n)
  | start (left) : Move n (.starting (left + 1)) .start (.starting left)
  | gather : Move n (.starting 0) (.acquire .entered n) .opening
  | letPass : Move n .opening (.release .release n) .closing
  | collect : Move n .closing (.acquire .finished n) .returning
  | enter : Move n (.task .taken) (.release .entered 1) (.task .entered)
  | pass : Move n (.task .entered) (.acquire .release 1) (.task .passed)
  | finish : Move n (.task .passed) (.release .finished 1) (.task .finished)
  | endTask : Move n (.task .finished) .endTask (.task .ended)

theorem next_move {n : Nat} {κ κ' : WarmUpPhase} {a : WarmUpAction} {r : a.Ans}
    (h : next n κ a r = some κ') : Move n κ a κ' := by
  unfold next at h
  split at h
  case h_1 | h_4 | h_5 | h_6 =>
    obtain ⟨rfl, he⟩ := Option.ite_none_right_eq_some.1 h
    obtain rfl := Option.some.inj he
    constructor
  case h_11 => cases h
  all_goals
    obtain rfl := Option.some.inj h
    constructor

def mayReturn : WarmUpPhase → Prop
  | .returning | .task .ended => True
  | _ => False

def constructs : WarmUpPhase → Bool
  | .task _ => false
  | _ => true

end WarmUpPhase

open WarmUpPhase

theorem startTasks_follows (n left : Nat) :
    Follows (next n) (fun _ κ => κ = .starting 0) (WarmUp.startTasks left) (.starting left) := by
  induction left with
  | zero => rfl
  | succ left ih => exact fun _ => ⟨_, rfl, ih⟩

theorem constructProvider_follows {n : Nat} (hn : 0 < n) (idealThreadCount : Int) :
    Follows (next n) (fun _ κ => κ.mayReturn) (WarmUp.constructProvider n idealThreadCount)
      .configure := by
  have hconfigured : (n : Int) > 0 := Int.natCast_pos.2 hn
  simp only [WarmUp.constructProvider, if_pos hconfigured, Int.toNat_natCast]
  intro _
  refine ⟨_, if_pos rfl, ?_⟩
  intro _
  refine ⟨_, rfl, ?_⟩
  apply follows_bind (p := WarmUp.startTasks n)
  apply (startTasks_follows n n).mono
  rintro _ κ rfl
  intro _
  refine ⟨_, if_pos rfl, ?_⟩
  intro _
  refine ⟨_, if_pos rfl, ?_⟩
  exact fun _ => ⟨_, if_pos rfl, trivial⟩

theorem warmUpTask_follows (n : Nat) :
    Follows (next n) (fun _ κ => κ.mayReturn) WarmUp.warmUpTask (.task .taken) := by
  intro _
  refine ⟨_, rfl, ?_⟩
  intro _
  refine ⟨_, rfl, ?_⟩
  intro _
  refine ⟨_, rfl, ?_⟩
  exact fun _ => ⟨_, rfl, trivial⟩

end LogosPluginQt
