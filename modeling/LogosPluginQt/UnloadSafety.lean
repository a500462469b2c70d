import LogosPluginQt.PluginUnload

namespace LogosPluginQt
open Interleaving PluginUnload UnloadPhase
set_option autoImplicit true

namespace UnloadWorld

structure Unprocessed (w : UnloadWorld) : Prop where
  processed : w.processed = []
  running : w.quit = false
  unknown : w.finished = none

structure Unasked (w : UnloadWorld) : Prop extends w.Unprocessed where
  answer : w.answer = none
  unconnected : w.quitsOnFinished = false

structure Awaiting (w : UnloadWorld) : Prop where
  onFinished : w.quitsOnFinished = true
  onTimeout : w.quitsOnTimeout = true
  unknown : w.finished = none
  first : (w.processed = [] ∧ w.quit = false ∧ w.deadline.isSome = true) ∨
    ∃ e, w.processed = [e] ∧ w.quit = true ∧
      (w.deadline.isSome = true ↔ e = .unloadFinished)

/-- A module that asked to be waited for has been. -/
def Settled (w : UnloadWorld) : Prop :=
  ∀ flag, w.answer = some flag → flag ≠ 0 → w.finished.isSome = true

end UnloadWorld

namespace UnloadPhase

def isHost : UnloadPhase → Bool
  | .signalling | .emittingEarly | .emitting | .expiring | .done => false
  | _ => true

def Holds (hookLoops : Bool) (w : UnloadWorld) : UnloadPhase → Prop
  | .start => w.Unasked
  | .installed => w.Unasked ∧ w.installed = true
  | .asked => w.Unasked ∧ w.asked = true
  | .answered flag => w.Unprocessed ∧ w.answer = some flag
  | .refused => False
  | .connected => w.Unprocessed ∧ w.quitsOnFinished = true
  | .bothConnected =>
    w.Unprocessed ∧ w.quitsOnFinished = true ∧ w.quitsOnTimeout = true
  | .waiting => w.Awaiting
  | .stopped => w.Awaiting ∧ w.quit = true
  | .checked | .reporting => w.finished.isSome = true
  | .emittingEarly => hookLoops = true ∧ w.quitsOnFinished = false
  | .emitting | .expiring => w.Awaiting ∧ w.quit = false
  | .signalling => w.asked = true
  | .done => True

end UnloadPhase

/-- The callback of the module may be on top of the host, and so may what the loop has taken
up. -/
inductive UnloadStack : List UnloadPhase → Prop where
  | idle : UnloadStack []
  | alone (κ : UnloadPhase) : UnloadStack [κ]
  | nested {κ κ' : UnloadPhase} : κ.isHost = false →
      (κ' = .waiting ∧ κ ≠ .emittingEarly ∨
        κ' = .asked ∧ (κ = .signalling ∨ κ = .emittingEarly ∨ κ = .done)) →
      UnloadStack [κ, κ']

section
variable {hookLoops : Bool} {w w' : UnloadWorld} {κ κ' : UnloadPhase}
  {κs : List UnloadPhase} {t : Nat}

structure UnloadBooks (hookLoops : Bool) (w : UnloadWorld) : Prop where
  slot : w.asked = true → w.installed = true
  kept : w.signalled = w.queued + w.early + w.processed.count .unloadFinished
  undisturbed : hookLoops = false → w.early = 0
  first : w.processed.length ≤ 1
  verdict : ∀ f, w.finished = some f →
    w.processed = [bif f then .unloadFinished else .timeout]

structure UnloadInvariant (hookLoops : Bool) (w : UnloadWorld)
    (φ : Nat → List UnloadPhase) : Prop where
  books : UnloadBooks hookLoops w
  fresh : w.called = false → w = {} ∧ ∀ t, φ t = []
  workers : ∀ t, t ≠ 0 → ∀ κ ∈ φ t, κ = .signalling ∨ κ = .done
  stacked : UnloadStack (φ 0)
  holds : ∀ t, ∀ κ ∈ φ t, κ.Holds hookLoops w
  settled : (∀ κ ∈ φ 0, κ.isHost = false) → w.Settled

variable {φ : Nat → List UnloadPhase}

theorem UnloadInvariant.initial : UnloadInvariant hookLoops {} fun _ => [] where
  books := ⟨nofun, rfl, fun _ => rfl, Nat.zero_le 1, nofun⟩
  fresh _ := ⟨rfl, fun _ => rfl⟩
  workers _ _ := nofun
  stacked := .idle
  holds _ _ := nofun
  settled _ := nofun

theorem UnloadInvariant.called (hI : UnloadInvariant hookLoops w φ) (hφ : φ t = κ :: κs) :
    w.called = true := by
  by_contra hcalled
  obtain ⟨_, hidle⟩ := hI.fresh (eq_false_of_ne_true hcalled)
  rw [hidle t] at hφ
  cases hφ

theorem UnloadInvariant.called_of_asked (hI : UnloadInvariant hookLoops w φ)
    (hasked : w.asked = true) : w.called = true := by
  by_contra hcalled
  obtain ⟨rfl, _⟩ := hI.fresh (eq_false_of_ne_true hcalled)
  cases hasked

theorem UnloadStack.host (h : UnloadStack (κ :: κs)) (hκ : κ.isHost = true) : κs = [] := by
  cases h with
  | alone => rfl
  | nested hleaf =>
    rw [hleaf] at hκ
    cases hκ

theorem UnloadStack.tail (h : UnloadStack (κ :: κs)) : UnloadStack κs := by
  cases h with
  | alone => exact .idle
  | nested => exact .alone _

theorem UnloadStack.done (h : UnloadStack (κ :: κs)) : UnloadStack (.done :: κs) := by
  cases h with
  | alone => exact .alone _
  | nested _ hbelow =>
    exact .nested rfl (hbelow.imp (fun hwaiting => ⟨hwaiting.1, nofun⟩)
      fun hasked => ⟨hasked.1, .inr (.inr rfl)⟩)

theorem UnloadStack.update (h : UnloadStack (φ 0)) (hs : t = 0 → UnloadStack κs) :
    UnloadStack (Function.update φ t κs 0) := by
  by_cases ht : t = 0
  · subst t
    rw [Function.update_self]
    exact hs rfl
  · rw [Function.update_of_ne (Ne.symm ht)]
    exact h

theorem UnloadStack.loop (h : UnloadStack (κ :: κs)) (hκ : κ = .emitting ∨ κ = .expiring) :
    ∀ κ' ∈ κs, κ' = .waiting := by
  intro κ' hκ'
  cases h with
  | alone => cases hκ'
  | nested _ hbelow =>
    obtain rfl := List.mem_singleton.1 hκ'
    obtain ⟨rfl, _⟩ | ⟨rfl, rfl | rfl | rfl⟩ := hbelow
    · rfl
    all_goals cases hκ <;> contradiction

theorem UnloadStack.hook (h : UnloadStack (.emittingEarly :: κs)) : ∀ κ' ∈ κs, κ' = .asked := by
  intro κ' hκ'
  cases h with
  | alone => cases hκ'
  | nested _ hbelow =>
    obtain rfl := List.mem_singleton.1 hκ'
    obtain ⟨_, hne⟩ | ⟨rfl, _⟩ := hbelow
    · exact absurd rfl hne
    · rfl

theorem UnloadPhase.Holds.signal (h : κ.Holds hookLoops w) : κ.Holds hookLoops w.signal := by
  cases κ with
  | start => exact ⟨⟨h.1.1, h.1.2, h.1.3⟩, h.2, h.3⟩
  | installed | asked => exact ⟨⟨⟨h.1.1.1, h.1.1.2, h.1.1.3⟩, h.1.2, h.1.3⟩, h.2⟩
  | answered | connected | bothConnected => exact ⟨⟨h.1.1, h.1.2, h.1.3⟩, h.2⟩
  | waiting => exact ⟨h.1, h.2, h.3, h.4⟩
  | stopped | emitting | expiring => exact ⟨⟨h.1.1, h.1.2, h.1.3, h.1.4⟩, h.2⟩
  | refused | checked | reporting | signalling | emittingEarly | done => exact h

/-- A module that has been asked finds its callback. -/
theorem UnloadBooks.signal (h : UnloadBooks hookLoops w) (hasked : w.asked = true) :
    UnloadBooks hookLoops w.signal where
  slot := h.slot
  kept := by
    have hkept := h.kept
    simp only [UnloadWorld.signal, h.slot hasked, ↓reduceIte]
    omega
  undisturbed := h.undisturbed
  first := h.first
  verdict := h.verdict

theorem UnloadInvariant.workers_hold (hI : UnloadInvariant hookLoops w φ)
    (ha : w.asked = true → w'.asked = true) (ht : t ≠ 0) :
    ∀ κ ∈ φ t, κ.Holds hookLoops w' := by
  intro κ hκ
  have hh := hI.holds t κ hκ
  obtain rfl | rfl := hI.workers t ht κ hκ
  · exact ha hh
  · trivial

theorem UnloadInvariant.host (hI : UnloadInvariant hookLoops w φ) (hφ : φ 0 = κ :: κs)
    (hκ : κ.isHost = true) (hκ' : κ'.isHost = true) (hb : UnloadBooks hookLoops w')
    (hc : w'.called = w.called) (ha : w.asked = true → w'.asked = true)
    (hh : κ'.Holds hookLoops w') :
    UnloadInvariant hookLoops w' (Function.update φ 0 (κ' :: κs)) := by
  obtain rfl := UnloadStack.host (hφ ▸ hI.stacked) hκ
  have hcalled : w.called = true := hI.called hφ
  refine ⟨hb, fun hfalse => ?_, fun u hu => ?_, ?_, fun u κ₁ hκ₁ => ?_, fun hnone => ?_⟩
  · rw [hc, hcalled] at hfalse
    cases hfalse
  · rw [Function.update_of_ne hu]
    exact hI.workers u hu
  · rw [Function.update_self]
    exact .alone _
  · obtain ⟨_, hself⟩ | ⟨hu, hother⟩ := mem_update hκ₁
    · obtain rfl := List.mem_singleton.1 hself
      exact hh
    · exact hI.workers_hold ha hu κ₁ hother
  · have hfalse := hnone κ' (by rw [Function.update_self]; exact List.mem_cons_self ..)
    rw [hκ'] at hfalse
    cases hfalse

theorem UnloadInvariant.leaf (hI : UnloadInvariant hookLoops w φ) (hφ : φ t = κ :: κs)
    (hκ : κ.isHost = false) (hb : UnloadBooks hookLoops w') (hc : w'.called = w.called)
    (ha : w'.asked = w.asked) (hanswer : w'.answer = w.answer) (hf : w'.finished = w.finished)
    (hh : ∀ κ₁ ∈ φ 0, (t = 0 → κ₁ ∈ κs) → κ₁.Holds hookLoops w') :
    UnloadInvariant hookLoops w' (Function.update φ t (.done :: κs)) := by
  have hcalled : w.called = true := hI.called hφ
  have hbelow {κ₁ : UnloadPhase} (hκ₁ : κ₁ ∈ κs) : κ₁ ∈ φ t := hφ ▸ List.mem_cons_of_mem _ hκ₁
  have hkept : w.asked = true → w'.asked = true := fun hasked => ha.trans hasked
  refine ⟨hb, fun hfalse => ?_, fun u hu κ₁ hκ₁ => ?_, ?_, fun u κ₁ hκ₁ => ?_, fun hnone => ?_⟩
  · rw [hc, hcalled] at hfalse
    cases hfalse
  · obtain ⟨rfl, hself⟩ | ⟨_, hother⟩ := mem_update hκ₁
    · exact (List.mem_cons.1 hself).elim .inr fun hrest => hI.workers u hu κ₁ (hbelow hrest)
    · exact hI.workers u hu κ₁ hother
  · apply hI.stacked.update
    rintro rfl
    exact UnloadStack.done (hφ ▸ hI.stacked)
  · obtain ⟨rfl, hself⟩ | ⟨hne, hother⟩ := mem_update hκ₁
    · obtain rfl | hrest := List.mem_cons.1 hself
      · trivial
      · by_cases hu : u = 0
        · subst u
          exact hh κ₁ (hbelow hrest) fun _ => hrest
        · exact hI.workers_hold hkept hu κ₁ (hbelow hrest)
    · by_cases hu : u = 0
      · subst u
        exact hh κ₁ hother fun ht => absurd ht.symm hne
      · exact hI.workers_hold hkept hu κ₁ hother
  · unfold UnloadWorld.Settled
    rw [hanswer, hf]
    refine hI.settled fun κ₁ hκ₁ => ?_
    by_cases heq : κ₁ = κ
    · subst κ₁
      exact hκ
    · apply hnone κ₁ (mem_update_of hκ₁ fun ht => ?_)
      subst t
      rw [hφ] at hκ₁
      exact List.mem_cons_of_mem _ ((List.mem_cons.1 hκ₁).resolve_left heq)

theorem UnloadInvariant.signal (hI : UnloadInvariant hookLoops w φ)
    (hφ : φ t = .signalling :: κs) :
    UnloadInvariant hookLoops w.signal (Function.update φ t (.done :: κs)) := by
  have hasked : w.asked = true := hI.holds t .signalling (hφ ▸ List.mem_cons_self ..)
  exact hI.leaf hφ rfl (hI.books.signal hasked) rfl rfl rfl rfl
    fun κ₁ hκ₁ _ => (hI.holds 0 κ₁ hκ₁).signal

theorem UnloadInvariant.process (hI : UnloadInvariant hookLoops w φ) (hφ : φ 0 = κ :: κs)
    (hκ : κ = .emitting ∨ κ = .expiring) (hb : UnloadBooks hookLoops w')
    (hc : w'.called = w.called) (ha : w'.asked = w.asked) (hanswer : w'.answer = w.answer)
    (hf : w'.finished = w.finished) (hw : w'.Awaiting) :
    UnloadInvariant hookLoops w' (Function.update φ 0 (.done :: κs)) := by
  have hstacked : UnloadStack (κ :: κs) := hφ ▸ hI.stacked
  have hleaf : κ.isHost = false := by
    obtain rfl | rfl := hκ <;> rfl
  refine hI.leaf hφ hleaf hb hc ha hanswer hf fun κ₁ _ hbelow => ?_
  obtain rfl := hstacked.loop hκ κ₁ (hbelow rfl)
  exact hw

theorem UnloadWorld.emit_connected (h : w.quitsOnFinished = true) : w.emit =
    { w with queued := w.queued - 1, processed := .unloadFinished :: w.processed, quit := true } :=
  if_pos h

theorem UnloadWorld.emit_unconnected (h : w.quitsOnFinished = false) :
    w.emit = { w with queued := w.queued - 1, early := w.early + 1 } :=
  if_neg (by rw [h]; exact Bool.false_ne_true)

theorem UnloadBooks.emitEarly (h : UnloadBooks hookLoops w) (hloops : hookLoops = true)
    (hq : 0 < w.queued) :
    UnloadBooks hookLoops { w with queued := w.queued - 1, early := w.early + 1 } where
  slot := h.slot
  kept := by
    have hkept := h.kept
    show w.signalled = w.queued - 1 + (w.early + 1) + w.processed.count .unloadFinished
    omega
  undisturbed hnone := by
    rw [hloops] at hnone
    cases hnone
  first := h.first
  verdict := h.verdict

/-- An event loop of the module's own takes an emission up before the host is connected. -/
theorem UnloadInvariant.emitEarly (hI : UnloadInvariant hookLoops w φ)
    (hφ : φ 0 = .emittingEarly :: κs) (hq : 0 < w.queued) :
    UnloadInvariant hookLoops w.emit (Function.update φ 0 (.done :: κs)) := by
  obtain ⟨hloops, hnone⟩ : hookLoops = true ∧ w.quitsOnFinished = false :=
    hI.holds 0 .emittingEarly (hφ ▸ List.mem_cons_self ..)
  have hstacked : UnloadStack (.emittingEarly :: κs) := hφ ▸ hI.stacked
  rw [UnloadWorld.emit_unconnected hnone]
  refine hI.leaf hφ rfl (hI.books.emitEarly hloops hq) rfl rfl rfl rfl fun κ₁ hκ₁ hbelow => ?_
  have hh := hI.holds 0 κ₁ hκ₁
  obtain rfl := hstacked.hook κ₁ (hbelow rfl)
  exact ⟨⟨⟨hh.1.1.1, hh.1.1.2, hh.1.1.3⟩, hh.1.2, hh.1.3⟩, hh.2⟩

theorem UnloadWorld.Awaiting.unprocessed (h : w.Awaiting) (hq : w.quit = false) :
    w.Unprocessed ∧ w.deadline.isSome = true := by
  obtain ⟨hp, _, hd⟩ | ⟨e, _, hquit, _⟩ := h.first
  · exact ⟨⟨hp, hq, h.unknown⟩, hd⟩
  · rw [hq] at hquit
    cases hquit

theorem UnloadWorld.Awaiting.emit (h : w.Awaiting) (hq : w.quit = false) : w.emit.Awaiting := by
  obtain ⟨⟨hp, _, _⟩, hd⟩ := h.unprocessed hq
  rw [UnloadWorld.emit_connected h.onFinished, hp]
  exact ⟨h.onFinished, h.onTimeout, h.unknown, .inr ⟨_, rfl, rfl, iff_of_true hd rfl⟩⟩

theorem UnloadWorld.Awaiting.expire (h : w.Awaiting) (hq : w.quit = false) :
    w.expire.Awaiting where
  onFinished := h.onFinished
  onTimeout := h.onTimeout
  unknown := h.unknown
  first := by
    obtain ⟨⟨hp, _, _⟩, _⟩ := h.unprocessed hq
    refine .inr ⟨.timeout, ?_, ?_, ?_⟩
    · rw [UnloadWorld.expire, hp]
    · rw [UnloadWorld.expire, h.onTimeout, Bool.or_true]
    · exact iff_of_false nofun nofun

theorem UnloadBooks.emit (h : UnloadBooks hookLoops w) (hw : w.Unprocessed)
    (hfin : w.quitsOnFinished = true) (hq : 0 < w.queued) : UnloadBooks hookLoops w.emit := by
  rw [UnloadWorld.emit_connected hfin, hw.processed]
  refine ⟨h.slot, ?_, h.undisturbed, Nat.le_refl 1, fun f hf => ?_⟩
  · have hkept := h.kept
    rw [hw.processed, List.count_nil] at hkept
    rw [List.count_singleton_self]
    show w.signalled = w.queued - 1 + w.early + 1
    omega
  · cases hw.unknown.symm.trans hf

theorem UnloadBooks.expire (h : UnloadBooks hookLoops w) (hw : w.Unprocessed) :
    UnloadBooks hookLoops w.expire where
  slot := h.slot
  kept := h.kept
  undisturbed := h.undisturbed
  first := by
    rw [UnloadWorld.expire, hw.processed]
    exact Nat.le_refl 1
  verdict f hf := by
    rw [show w.expire.finished = w.finished from rfl, hw.unknown] at hf
    cases hf

/-- Whether the deadline is still armed tells which of the two came first. -/
theorem UnloadBooks.check (h : UnloadBooks hookLoops w) (hw : w.Awaiting) (hq : w.quit = true) :
    UnloadBooks hookLoops { w with finished := some w.deadline.isSome } where
  slot := h.slot
  kept := h.kept
  undisturbed := h.undisturbed
  first := h.first
  verdict f hf := by
    obtain rfl := Option.some.inj hf
    obtain ⟨_, hrun, _⟩ | ⟨e, hp, _, hd⟩ := hw.first
    · rw [hq] at hrun
      cases hrun
    · simp only [hp]
      cases e with
      | unloadFinished => rw [hd.2 rfl, cond_true]
      | timeout =>
        have hfired : w.deadline.isSome = false := eq_false_of_ne_true fun hsome => by
          cases hd.1 hsome
        rw [hfired, cond_false]

structure UnloadKept (w w' : UnloadWorld) : Prop where
  slot : w.installed = true → w'.installed = true
  asked : w'.asked = true → w.asked = true ∨ w'.installed = true
  signalled : w'.signalled = w.signalled
  queued : w'.queued = w.queued
  early : w'.early = w.early
  processed : w'.processed = w.processed
  finished : w'.finished = w.finished

theorem UnloadBooks.keep (h : UnloadBooks hookLoops w) (hk : UnloadKept w w') :
    UnloadBooks hookLoops w' where
  slot hasked := (hk.asked hasked).elim (fun hold => hk.slot (h.slot hold)) id
  kept := by
    rw [hk.signalled, hk.queued, hk.early, hk.processed]
    exact h.kept
  undisturbed hnone := hk.early.trans (h.undisturbed hnone)
  first := by
    rw [hk.processed]
    exact h.first
  verdict := by
    rw [hk.finished, hk.processed]
    exact h.verdict

variable {a : UnloadAction} {r : a.Ans} {version : Nat × Nat} {graceMs : Nat}

structure UnloadMove (hookLoops : Bool) (w w' : UnloadWorld) (κ' : UnloadPhase) : Prop where
  isHost : κ'.isHost = true
  called : w'.called = w.called
  asked : w.asked = true → w'.asked = true
  books : UnloadBooks hookLoops w'
  holds : κ'.Holds hookLoops w'

theorem UnloadPhase.Holds.move (hh : κ.Holds hookLoops w) (hb : UnloadBooks hookLoops w)
    (hκ : κ.isHost = true) (hm : Move κ a r κ')
    (he : unloadExec (emittedSurface version) w a r w') : UnloadMove hookLoops w w' κ' := by
  cases hm with
  | install =>
    obtain rfl := he
    have hbooks : UnloadBooks hookLoops { w with installed := true } :=
      hb.keep ⟨fun _ => rfl, .inl, rfl, rfl, rfl, rfl, rfl⟩
    exact ⟨rfl, rfl, id, hbooks, ⟨⟨hh.1.1, hh.1.2, hh.1.3⟩, hh.2, hh.3⟩, rfl⟩
  | ask =>
    obtain rfl := he
    have hbooks : UnloadBooks hookLoops { w with asked := true } :=
      hb.keep ⟨id, fun _ => .inr hh.2, rfl, rfl, rfl, rfl, rfl⟩
    obtain ⟨⟨hun, hanswer, hnone⟩, _⟩ := hh
    exact ⟨rfl, rfl, fun _ => rfl, hbooks, ⟨⟨hun.1, hun.2, hun.3⟩, hanswer, hnone⟩, rfl⟩
  | answer flag =>
    obtain rfl := he
    have hbooks : UnloadBooks hookLoops { w with answer := some flag } :=
      hb.keep ⟨id, .inl, rfl, rfl, rfl, rfl, rfl⟩
    obtain ⟨⟨hun, _, _⟩, _⟩ := hh
    exact ⟨rfl, rfl, id, hbooks, ⟨hun.1, hun.2, hun.3⟩, rfl⟩
  | connect flag r =>
    obtain ⟨rfl, rfl⟩ := he
    have hbooks : UnloadBooks hookLoops { w with quitsOnFinished := true } :=
      hb.keep ⟨id, .inl, rfl, rfl, rfl, rfl, rfl⟩
    exact ⟨rfl, rfl, id, hbooks, ⟨hh.1.1, hh.1.2, hh.1.3⟩, rfl⟩
  | connectDeadline =>
    obtain rfl := he
    have hbooks : UnloadBooks hookLoops { w with quitsOnTimeout := true } :=
      hb.keep ⟨id, .inl, rfl, rfl, rfl, rfl, rfl⟩
    exact ⟨rfl, rfl, id, hbooks, ⟨hh.1.1, hh.1.2, hh.1.3⟩, hh.2, rfl⟩
  | arm graceMs =>
    obtain rfl := he
    obtain ⟨hun, hfin, htime⟩ := hh
    have hbooks : UnloadBooks hookLoops { w with deadline := some graceMs } :=
      hb.keep ⟨id, .inl, rfl, rfl, rfl, rfl, rfl⟩
    exact ⟨rfl, rfl, id, hbooks, hfin, htime, hun.unknown,
      .inl ⟨hun.processed, hun.running, rfl⟩⟩
  | leaveLoop =>
    obtain ⟨hquit, rfl⟩ := he
    exact ⟨rfl, rfl, id, hb, hh, hquit⟩
  | check r =>
    obtain ⟨rfl, rfl⟩ := he
    exact ⟨rfl, rfl, id, hb.check hh.1 hh.2, rfl⟩
  | disarm | warn | debug =>
    obtain rfl := he
    exact ⟨rfl, rfl, id, hb.keep ⟨id, .inl, rfl, rfl, rfl, rfl, rfl⟩, hh⟩
  | measure =>
    obtain rfl := he
    exact ⟨rfl, rfl, id, hb, hh⟩
  | refuse => exact hh.elim
  | signal | emitEarly | emit | expire => cases hκ

theorem UnloadInvariant.run (hI : UnloadInvariant hookLoops w φ) (hφ : φ t = κ :: κs)
    (hm : Move κ a r κ') (he : unloadExec (emittedSurface version) w a r w') :
    UnloadInvariant hookLoops w' (Function.update φ t (κ' :: κs)) := by
  by_cases hsignal : κ = .signalling
  · subst κ
    cases hm with
    | signal =>
      obtain rfl := he
      exact hI.signal hφ
  have ht : t = 0 := by
    by_contra ht
    obtain rfl | rfl := hI.workers t ht κ (hφ ▸ List.mem_cons_self ..)
    · exact hsignal rfl
    · cases hm
  subst t
  have hh : κ.Holds hookLoops w := hI.holds 0 κ (hφ ▸ List.mem_cons_self ..)
  cases hκ : κ.isHost with
  | true =>
    have hmove := hh.move hI.books hκ hm he
    exact hI.host hφ hκ hmove.isHost hmove.books hmove.called hmove.asked hmove.holds
  | false =>
    cases hm with
    | emitEarly =>
      obtain ⟨hq, rfl⟩ := he
      exact hI.emitEarly hφ hq
    | emit =>
      obtain ⟨hq, rfl⟩ := he
      obtain ⟨hun, _⟩ := hh.1.unprocessed hh.2
      have hw := hh.1.emit hh.2
      have hbooks := hI.books.emit hun hh.1.onFinished hq
      rw [UnloadWorld.emit_connected hh.1.onFinished] at hw hbooks ⊢
      exact hI.process hφ (.inl rfl) hbooks rfl rfl rfl rfl hw
    | expire =>
      obtain ⟨_, rfl⟩ := he
      obtain ⟨hun, _⟩ := hh.1.unprocessed hh.2
      exact hI.process hφ (.inr rfl) (hI.books.expire hun) rfl rfl rfl rfl (hh.1.expire hh.2)
    | signal => exact absurd rfl hsignal
    | _ => cases hκ

theorem UnloadPhase.Holds.settled (h : κ.Holds hookLoops w) (hret : κ.mayReturn)
    (hκ : κ.isHost = true) : w.Settled := by
  intro flag hflag hne
  cases κ with
  | start =>
    rw [h.answer] at hflag
    cases hflag
  | answered flag' =>
    rw [h.2] at hflag
    obtain rfl := Option.some.inj hflag
    exact absurd hret hne
  | reporting => exact h
  | refused => exact h.elim
  | installed | asked | connected | bothConnected | waiting | stopped | checked => exact hret.elim
  | signalling | emittingEarly | emitting | expiring | done => cases hκ

theorem UnloadInvariant.leave (hI : UnloadInvariant hookLoops w φ) (hφ : φ t = κ :: κs)
    (hret : κ.mayReturn) : UnloadInvariant hookLoops w (Function.update φ t κs) := by
  have hcalled : w.called = true := hI.called hφ
  have hsub {κ₁ : UnloadPhase} {u : Nat} (hκ₁ : κ₁ ∈ Function.update φ t κs u) : κ₁ ∈ φ u := by
    obtain ⟨rfl, hself⟩ | ⟨_, hother⟩ := mem_update hκ₁
    · rw [hφ]
      exact List.mem_cons_of_mem _ hself
    · exact hother
  refine ⟨hI.books, fun hc => ?_, fun u hu κ₁ hκ₁ => hI.workers u hu κ₁ (hsub hκ₁), ?_,
    fun u κ₁ hκ₁ => hI.holds u κ₁ (hsub hκ₁), fun hnone => ?_⟩
  · rw [hcalled] at hc
    cases hc
  · apply hI.stacked.update
    rintro rfl
    exact UnloadStack.tail (hφ ▸ hI.stacked)
  · cases hκ : κ.isHost with
    | false =>
      refine hI.settled fun κ₁ hκ₁ => ?_
      by_cases heq : κ₁ = κ
      · subst κ₁
        exact hκ
      · apply hnone κ₁ (mem_update_of hκ₁ fun ht => ?_)
        subst t
        rw [hφ] at hκ₁
        exact (List.mem_cons.1 hκ₁).resolve_left heq
    | true =>
      by_cases ht : t = 0
      · subst t
        exact (hI.holds 0 κ (hφ ▸ List.mem_cons_self ..)).settled hret hκ
      · obtain rfl | rfl := hI.workers t ht κ (hφ ▸ List.mem_cons_self ..)
        all_goals cases hκ

theorem UnloadInvariant.push (hI : UnloadInvariant hookLoops w φ) (hc : w.called = true)
    (hw : t ≠ 0 → κ = .signalling) (hs : t = 0 → UnloadStack (κ :: φ t)) (hh : κ.Holds hookLoops w)
    (hκ : κ.isHost = false) : UnloadInvariant hookLoops w (Function.update φ t (κ :: φ t)) := by
  have hsame {κ₁ : UnloadPhase} {u : Nat} (hκ₁ : κ₁ ∈ Function.update φ t (κ :: φ t) u) :
      (u = t ∧ κ₁ = κ) ∨ κ₁ ∈ φ u := by
    obtain ⟨rfl, hself⟩ | ⟨_, hother⟩ := mem_update hκ₁
    · exact (List.mem_cons.1 hself).imp_left fun he => ⟨rfl, he⟩
    · exact .inr hother
  refine ⟨hI.books, fun hfalse => ?_, fun u hu κ₁ hκ₁ => ?_, ?_, fun u κ₁ hκ₁ => ?_,
    fun hnone => ?_⟩
  · rw [hc] at hfalse
    cases hfalse
  · obtain ⟨rfl, rfl⟩ | hold := hsame hκ₁
    · exact .inl (hw hu)
    · exact hI.workers u hu κ₁ hold
  · exact hI.stacked.update hs
  · obtain ⟨_, rfl⟩ | hold := hsame hκ₁
    · exact hh
    · exact hI.holds u κ₁ hold
  · refine hI.settled fun κ₁ hκ₁ => hnone κ₁ (mem_update_of hκ₁ fun ht => ?_)
    subst t
    exact List.mem_cons_of_mem _ hκ₁

theorem unloadDone_follows :
    Follows next (fun _ κ => κ.mayReturn) (perform .unloadDone) .signalling :=
  fun _ => ⟨_, rfl, trivial⟩

theorem waiting_of_exec (h : ∀ r, ∃ κ', next κ .exec r = some κ') : κ = .waiting := by
  obtain ⟨_, hn⟩ := h ()
  cases next_move hn
  rfl

theorem asked_of_logosModuleAboutToUnload
    (h : ∀ r, ∃ κ', next κ .logosModuleAboutToUnload r = some κ') : κ = .asked := by
  obtain ⟨_, hn⟩ := h (0 : Int)
  cases next_move hn
  rfl

theorem UnloadInvariant.alone (hI : UnloadInvariant hookLoops w φ) (hφ : φ 0 = κ :: κs)
    (hκ : κ.isHost = true) : φ 0 = [κ] := by
  have hstacked : UnloadStack (κ :: κs) := hφ ▸ hI.stacked
  rw [hφ, hstacked.host hκ]

theorem UnloadInvariant.above (hI : UnloadInvariant hookLoops w φ) (hφ : φ 0 = .waiting :: κs)
    (hκ : κ.isHost = false) (hne : κ ≠ .emittingEarly) : UnloadStack (κ :: φ 0) := by
  rw [hI.alone hφ rfl]
  exact .nested hκ (.inl ⟨rfl, hne⟩)

theorem UnloadInvariant.inHook (hI : UnloadInvariant hookLoops w φ) (hφ : φ 0 = .asked :: κs)
    (hκ : κ = .signalling ∨ κ = .emittingEarly) : UnloadStack (κ :: φ 0) := by
  rw [hI.alone hφ rfl]
  obtain rfl | rfl := hκ
  · exact .nested rfl (.inr ⟨rfl, .inl rfl⟩)
  · exact .nested rfl (.inr ⟨rfl, .inr (.inl rfl)⟩)

theorem UnloadInvariant.turn (hI : UnloadInvariant hookLoops w φ) (hφ : φ 0 = .waiting :: κs)
    (hκ : κ = .emitting ∨ κ = .expiring) (hrun : w.quit = false) :
    UnloadInvariant hookLoops w (Function.update φ 0 (κ :: φ 0)) := by
  have hw : UnloadPhase.waiting.Holds hookLoops w :=
    hI.holds 0 .waiting (hφ ▸ List.mem_cons_self ..)
  have hcalled : w.called = true := hI.called hφ
  obtain rfl | rfl := hκ
  all_goals exact hI.push hcalled (absurd rfl) (fun _ => hI.above hφ rfl nofun) ⟨hw, hrun⟩ rfl

theorem unload_invariant (version : Nat × Nat) (graceMs : Nat) (hookLoops : Bool) :
    PhaseInvariant (unloadSystem version graceMs hookLoops) next (fun _ κ => κ.mayReturn)
      (UnloadInvariant hookLoops) where
  run hI hφ he hn := hI.run hφ (next_move hn) he
  leave hI hφ hret := hI.leave hφ hret
  enter {w w' φ t p} hI hφ he := by
    cases he with
    | host ht hc =>
      subst t
      obtain ⟨rfl, hidle⟩ := hI.fresh hc
      refine ⟨.start, runPluginAboutToUnload_follows version graceMs, ?_⟩
      have hbooks : UnloadBooks hookLoops { called := true } :=
        hI.books.keep ⟨id, .inl, rfl, rfl, rfl, rfl, rfl⟩
      refine ⟨hbooks, nofun, fun u hu => ?_, ?_, fun u κ hκ => ?_, fun _ => nofun⟩
      · rw [Function.update_of_ne hu]
        exact hI.workers u hu
      · rw [Function.update_self]
        exact .alone _
      · obtain ⟨_, hself⟩ | ⟨hu, hother⟩ := mem_update hκ
        · obtain rfl := List.mem_singleton.1 hself
          exact ⟨⟨rfl, rfl, rfl⟩, rfl, rfl⟩
        · rw [hidle u] at hother
          cases hother
    | callback hasked _ =>
      refine ⟨.signalling, unloadDone_follows, ?_⟩
      rw [← hφ]
      refine hI.push (hI.called_of_asked hasked) (fun _ => rfl) (fun _ => ?_) hasked rfl
      rw [hφ]
      exact .alone _
  nest {w w' φ t a p κ rest} hI hφ hnext he := by
    have hcalled : w.called = true := hI.called hφ
    cases he with
    | callback hasked hat =>
      obtain hnone | ⟨ht, hin⟩ := hat
      · cases hnone
      · refine ⟨.signalling, unloadDone_follows, hI.push hcalled (fun _ => rfl) ?_ hasked rfl⟩
        intro _
        subst t
        obtain rfl | rfl := hin.imp Option.some.inj Option.some.inj
        · obtain rfl := asked_of_logosModuleAboutToUnload hnext
          exact hI.inHook hφ (.inl rfl)
        · obtain rfl := waiting_of_exec hnext
          exact hI.above hφ rfl nofun
    | hookEmission ht hloops _ =>
      obtain rfl := asked_of_logosModuleAboutToUnload hnext
      subst t
      have hh : UnloadPhase.asked.Holds hookLoops w :=
        hI.holds 0 .asked (hφ ▸ List.mem_cons_self ..)
      exact ⟨.emittingEarly, fun _ => ⟨_, rfl, trivial⟩, hI.push hcalled (absurd rfl)
        (fun _ => hI.inHook hφ (.inr rfl)) ⟨hloops, hh.1.unconnected⟩ rfl⟩
    | emission ht _ hrun =>
      obtain rfl := waiting_of_exec hnext
      subst t
      exact ⟨.emitting, fun _ => ⟨_, rfl, trivial⟩, hI.turn hφ (.inl rfl) hrun⟩
    | deadline ht _ hrun =>
      obtain rfl := waiting_of_exec hnext
      subst t
      exact ⟨.expiring, fun _ => ⟨_, rfl, trivial⟩, hI.turn hφ (.inr rfl) hrun⟩

/-- What is promised of the teardown wherever the host, the module and the loop have come to. -/
structure UnloadSafe (version : Nat × Nat) (graceMs : Nat) (hookLoops : Bool)
    (c : Config UnloadAction.Ans Unit UnloadWorld) : Prop where
  /-- The callback is in place before the module is asked, so no signal finds an empty slot. -/
  installed : ∀ p ∈ c.stack 0,
    p.pending = some .askModule ∨ p.pending = some .logosModuleAboutToUnload →
      c.shared.installed = true
  kept : c.shared.signalled =
    c.shared.queued + c.shared.early + c.shared.processed.count .unloadFinished
  /-- Only an event loop inside the hook emits before the host is connected. -/
  undisturbed : hookLoops = false → c.shared.early = 0
  first : c.shared.processed.length ≤ 1
  left : ∀ p ∈ c.stack 0, p.pending = some .exec →
    ((∃ w', (unloadSystem version graceMs hookLoops).exec 0 c.shared .exec () w') ↔
      c.shared.processed ≠ [])
  observed : ∀ resume rest, c.stack 0 = .act .exec resume :: rest →
    c.shared.processed = [] → c.shared.early < c.shared.signalled →
    Relation.ReflTransGen (Step (unloadSystem version graceMs hookLoops)) c
        ⟨c.shared.emit, c.stack⟩ ∧
      c.shared.emit.processed = [.unloadFinished]
  expires : ∀ resume rest, c.stack 0 = .act .exec resume :: rest →
    c.shared.processed = [] →
    Relation.ReflTransGen (Step (unloadSystem version graceMs hookLoops)) c
        ⟨c.shared.expire, c.stack⟩ ∧
      c.shared.expire.processed = [.timeout]
  verdict : ∀ finished, c.shared.finished = some finished →
    c.shared.processed = [bif finished then .unloadFinished else .timeout]
  waited : c.shared.called = true → c.stack 0 = [] →
    ∀ flag, c.shared.answer = some flag → flag ≠ 0 → ∃ finished, c.shared.finished = some finished

variable {c : Config UnloadAction.Ans Unit UnloadWorld}

theorem UnloadWorld.Awaiting.quit_iff (h : w.Awaiting) :
    w.quit = true ↔ w.processed ≠ [] := by
  obtain ⟨hp, hq, _⟩ | ⟨e, hp, hq, _⟩ := h.first
  · rw [hp, hq]
    exact iff_of_false Bool.false_ne_true (not_not_intro rfl)
  · rw [hp, hq]
    exact iff_of_true rfl (List.cons_ne_nil _ _)

theorem UnloadInvariant.awaiting (hI : UnloadInvariant hookLoops w φ)
    (hc : Tracks next (fun _ κ => κ.mayReturn) c φ) {p : UnloadProg Unit}
    (hp : p ∈ c.stack 0) (hexec : p.pending = some .exec) : w.Awaiting := by
  obtain ⟨κ, hmem, hκ⟩ := hc.mem hp
  cases p with
  | ret => cases hexec
  | act a resume =>
    obtain rfl := Option.some.inj hexec
    obtain rfl := waiting_of_exec fun r => (hκ r).imp fun _ => And.left
    exact hI.holds 0 _ hmem

theorem UnloadInvariant.asking (hI : UnloadInvariant hookLoops w φ)
    (hc : Tracks next (fun _ κ => κ.mayReturn) c φ) {p : UnloadProg Unit} (hp : p ∈ c.stack 0)
    (hask : p.pending = some .askModule ∨ p.pending = some .logosModuleAboutToUnload) :
    w.installed = true := by
  obtain ⟨κ, hmem, hκ⟩ := hc.mem hp
  cases p with
  | ret => cases hask <;> contradiction
  | act a resume =>
    obtain rfl | rfl := hask.imp Option.some.inj Option.some.inj
    · obtain ⟨_, hn, _⟩ := hκ ()
      cases next_move hn
      exact (hI.holds 0 _ hmem).2
    · obtain rfl := asked_of_logosModuleAboutToUnload fun r => (hκ r).imp fun _ => And.left
      exact hI.books.slot (hI.holds 0 _ hmem).2

/-- Every teardown, whenever the module signals and in whatever order the loop takes up what
it is given. -/
theorem unload_safe (h : Reachable (unloadSystem version graceMs hookLoops) {} c) :
    UnloadSafe version graceMs hookLoops c := by
  obtain ⟨φ, hc, hI⟩ := (unload_invariant version graceMs hookLoops).reachable .initial h
  have hloop {resume : Unit → UnloadProg Unit} {rest : List (UnloadProg Unit)}
      (hstack : c.stack 0 = .act .exec resume :: rest) (hp : c.shared.processed = []) :
      c.shared.Awaiting ∧ c.shared.quit = false := by
    have hw := hI.awaiting hc (hstack ▸ List.mem_cons_self ..) (Prog.pending_act ..)
    exact ⟨hw, eq_false_of_ne_true fun hq => hw.quit_iff.1 hq hp⟩
  refine ⟨fun _ => hI.asking hc, hI.books.kept, hI.books.undisturbed, hI.books.first, ?_, ?_, ?_,
    hI.books.verdict, ?_⟩
  · intro p hp hexec
    rw [← (hI.awaiting hc hp hexec).quit_iff]
    constructor
    · rintro ⟨_, hquit, _⟩
      exact hquit
    · exact fun hquit => ⟨_, hquit, rfl⟩
  · intro resume rest hstack hp hsignalled
    obtain ⟨hw, hrun⟩ := hloop hstack hp
    have hqueued : 0 < c.shared.queued := by
      have hkept := hI.books.kept
      rw [hp, List.count_nil] at hkept
      omega
    refine ⟨Runs.steps_nested (x := ()) hstack (.emission rfl hqueued hrun) ?_, ?_⟩
    · exact .act (r := ()) ⟨hqueued, rfl⟩ (.ret _ _)
    · rw [UnloadWorld.emit_connected hw.onFinished, hp]
  · intro resume rest hstack hp
    obtain ⟨hw, hrun⟩ := hloop hstack hp
    obtain ⟨_, harmed⟩ := hw.unprocessed hrun
    refine ⟨Runs.steps_nested (x := ()) hstack (.deadline rfl harmed hrun) ?_, ?_⟩
    · exact .act (r := ()) ⟨harmed, rfl⟩ (.ret _ _)
    · rw [UnloadWorld.expire, hp]
  · intro _ hidle flag hflag hne
    have hnone : φ 0 = [] := hc.nil hidle
    have hfinished := hI.settled (by rw [hnone]; nofun) flag hflag hne
    exact Option.isSome_iff_exists.1 hfinished

end

/-- The module finishes inside the hook, before the host has connected to the signal, and the
loop takes up its emission before the deadline. -/
theorem unload_safe_inline :
    ∃ c₁ c₂, Reachable (unloadSystem (0, 5) 10 false) {} c₁ ∧
      (∃ p ∈ c₁.stack 0, p.pending = some .logosModuleAboutToUnload) ∧
      c₁.shared.signalled = 1 ∧ c₁.shared.quitsOnFinished = false ∧
      Relation.ReflTransGen (Step (unloadSystem (0, 5) 10 false)) c₁ c₂ ∧
      c₂.stack 0 = [] ∧ c₂.shared.finished = some true ∧ UnloadSafe (0, 5) 10 false c₂ := by
  let answered (flag : Int) : UnloadProg Unit :=
    if flag = 0 then return () else awaitUnloadFinished 10
  let asking : UnloadProg Unit := .act .logosModuleAboutToUnload answered
  let stack : Nat → List (UnloadProg Unit) := Function.update (fun _ => []) 0 [asking]
  have h₁ := (Reachable.refl (unloadSystem (0, 5) 10 false) {}).step
    (.enter (t := 0) rfl (.host rfl rfl))
  have hask : Advances (unloadExec (emittedSurface (0, 5))) { called := true }
      (runPluginAboutToUnload (some (emittedSurface (0, 5))) 10) asking
      { called := true, installed := true, asked := true } :=
    .act (r := ()) rfl (.act (r := ()) rfl (.refl _ _))
  have h₂ := h₁.advance (t := 0) rfl hask
  rw [Function.update_idem] at h₂
  have hsignal : Relation.ReflTransGen (Step (unloadSystem (0, 5) 10 false))
      ⟨{ called := true, installed := true, asked := true }, stack⟩
      ⟨{ called := true, installed := true, asked := true, queued := 1, signalled := 1 }, stack⟩ :=
    Runs.steps_nested (t := 0) rfl (.callback rfl (.inr ⟨rfl, .inl rfl⟩))
      (.act (r := ()) rfl (.ret _ ()))
  have hrun : NestedRuns (unloadSystem (0, 5) 10 false) 0
      { called := true, installed := true, asked := true, queued := 1, signalled := 1 } asking ()
      { called := true, installed := true, asked := true, quitsOnFinished := true,
        quitsOnTimeout := true, quit := true, log := ["module finished unloading in 3ms"],
        answer := some 1, signalled := 1, processed := [.unloadFinished],
        finished := some true } := by
    apply NestedRuns.act (r := (1 : Int)) rfl
    apply NestedRuns.act (r := true)
    · exact ⟨rfl, rfl⟩
    apply NestedRuns.act (r := ()) rfl
    apply NestedRuns.act (r := ()) rfl
    apply NestedRuns.nest
    · exact .emission rfl Nat.zero_lt_one rfl
    · apply NestedRuns.act (r := ())
      · exact ⟨Nat.zero_lt_one, rfl⟩
      · exact .ret _ _
    apply NestedRuns.act (r := ())
    · exact ⟨rfl, rfl⟩
    apply NestedRuns.act (r := true)
    · exact ⟨rfl, rfl⟩
    apply NestedRuns.act (r := ()) rfl
    apply NestedRuns.act (r := (3 : Nat)) rfl
    apply NestedRuns.act (r := ()) rfl
    exact .ret _ _
  have hend : Relation.ReflTransGen (Step (unloadSystem (0, 5) 10 false)) ⟨_, stack⟩ _ :=
    (hrun.steps rfl).tail (.leave (t := 0) rfl)
  have h₃ := h₂.trans hsignal
  exact ⟨_, _, h₃, ⟨asking, List.mem_cons_self .., rfl⟩, rfl, rfl, hend, rfl, rfl,
    unload_safe (h₃.trans hend)⟩

end LogosPluginQt
