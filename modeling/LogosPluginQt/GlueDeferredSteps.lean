import LogosPluginQt.GlueDeferredPhases
import LogosPluginQt.GlueLedger

namespace LogosPluginQt
open Interleaving Glue GlueWorld DeferredPhase
set_option autoImplicit true

namespace DeferredPhase

def AtWork : DeferredPhase → Prop
  | .working _ _ | .completed _ _ => True
  | _ => False

def Waiting : DeferredPhase → Prop
  | .outside | .direct _ _ | .working _ _ => True
  | _ => False

/-- What a frame of thread `t` says of its call. -/
def Holds (h : GlueHost) (w : GlueWorld) (place : Nat → Place) (t : Nat) : DeferredPhase → Prop
  | .outside | .completed _ _ => True
  | .direct _ n => ∃ call, w.calls[n]? = some call ∧ call.deferred = false
  | .entered p n => place n = .making t ∧ n ∈ w.copying ∧ w.Made p n (w.eventCallback p) ∧
    ∀ q value, (n, value) ∉ w.draws q
  | .drawn p n callId => place n = .making t ∧ n ∈ w.copying ∧
    w.Made p n (w.eventCallback p) ∧ w.Drawn h p n callId
  | .armed p n callId eventCb => place n = .making t ∧ w.Made p n eventCb ∧
    w.Drawn h p n callId
  | .returning p n callId => (place n).Handed ∧ (∃ listener, w.Made p n listener) ∧
    w.Drawn h p n callId
  | .working p task => place task.call = .working t ∧ t ∈ w.busy p ∧
    w.Made p task.call task.eventCb ∧ w.Drawn h p task.call task.callId
  | .terminated => False

end DeferredPhase

/-- What the running frame and the ones below it hold: a worker's frame is the lowest one. -/
def Stacked (h : GlueHost) (w : GlueWorld) (place : Nat → Place) (t : Nat) :
    List DeferredPhase → Prop
  | [] => True
  | κ :: rest => κ.Holds h w place t ∧ (κ.AtWork → rest = []) ∧ (∀ κ' ∈ rest, κ'.Waiting) ∧
    Stacked h w place t rest

/-- What a step of thread `t`, out of phase `κ`, leaves to all other frames. -/
structure FrameEffect (t : Nat) (κ : DeferredPhase) (w : GlueWorld) (place : Nat → Place)
    (w' : GlueWorld) (place' : Nat → Place) : Prop where
  calls : CallsKept w w'
  draws : ∀ p, w.draws p ⊆ w'.draws p
  handed : ∀ n, (place n).Handed → (place' n).Handed
  making : ∀ n u, u ≠ t → place n = .making u → place' n = .making u
  working : ∀ n u, u ≠ t ∨ ¬ κ.AtWork → place n = .working u → place' n = .working u
  busy : ∀ p u, u ≠ t ∨ ¬ κ.AtWork → u ∈ w.busy p → u ∈ w'.busy p
  undrawn : ∀ n u, u ≠ t → place n = .making u → (∀ q value, (n, value) ∉ w.draws q) →
    ∀ q value, (n, value) ∉ w'.draws q
  copying : ∀ n u, u ≠ t → place n = .making u → n ∈ w.copying → n ∈ w'.copying
  listener : ∀ p n, n ∈ w.copying → w.Made p n (w.eventCallback p) →
    w'.eventCallback p = w.eventCallback p

section
variable {h : GlueHost} {w w' : GlueWorld} {place place' : Nat → Place} {t u : Nat}
  {κ κ' : DeferredPhase}

theorem FrameEffect.keep (hc : w'.calls = w.calls) (hd : w'.draws = w.draws)
    (hcopy : w'.copying = w.copying) (hl : w'.eventCallback = w.eventCallback)
    (hb : w'.busy = w.busy) : FrameEffect t κ w place w' place where
  calls _ _ hn := hc ▸ hn
  draws _ := hd ▸ List.Subset.refl _
  handed _ := id
  making _ _ _ := id
  working _ _ _ := id
  busy _ _ _ hmem := hb ▸ hmem
  undrawn _ _ _ _ hn := hd ▸ hn
  copying _ _ _ _ hmem := hcopy ▸ hmem
  listener p _ _ _ := congrFun hl p

theorem FrameEffect.holds {κ'' : DeferredPhase} (hE : FrameEffect t κ w place w' place')
    (hκ : κ''.Holds h w place u) (hu : u ≠ t ∨ ¬ κ.AtWork ∧ κ''.Waiting) :
    κ''.Holds h w' place' u := by
  cases κ'' with
  | outside | completed => trivial
  | direct p n =>
    obtain ⟨call, hn, hd⟩ := hκ
    exact ⟨call, hE.calls n call hn, hd⟩
  | entered p n =>
    obtain hu | ⟨_, hw⟩ := hu
    · obtain ⟨hp, hcopy, hm, hn⟩ := hκ
      exact ⟨hE.making n u hu hp, hE.copying n u hu hp hcopy,
        hE.listener p n hcopy hm ▸ hm.mono hE.calls, hE.undrawn n u hu hp hn⟩
    · cases hw
  | drawn p n callId =>
    obtain hu | ⟨_, hw⟩ := hu
    · obtain ⟨hp, hcopy, hm, hd⟩ := hκ
      exact ⟨hE.making n u hu hp, hE.copying n u hu hp hcopy,
        hE.listener p n hcopy hm ▸ hm.mono hE.calls, hd.mono hE.draws⟩
    · cases hw
  | armed p n callId eventCb =>
    obtain hu | ⟨_, hw⟩ := hu
    · obtain ⟨hp, hm, hd⟩ := hκ
      exact ⟨hE.making n u hu hp, hm.mono hE.calls, hd.mono hE.draws⟩
    · cases hw
  | returning p n callId =>
    obtain ⟨hh, ⟨listener, hm⟩, hd⟩ := hκ
    exact ⟨hE.handed n hh, ⟨listener, hm.mono hE.calls⟩, hd.mono hE.draws⟩
  | working p task =>
    obtain ⟨hp, hb, hm, hd⟩ := hκ
    have hu' := hu.imp id And.left
    exact ⟨hE.working _ u hu' hp, hE.busy p u hu' hb, hm.mono hE.calls, hd.mono hE.draws⟩
  | terminated => cases hκ

theorem FrameEffect.stacked {κs : List DeferredPhase} (hE : FrameEffect t κ w place w' place')
    (hs : Stacked h w place u κs) (hu : u ≠ t ∨ ¬ κ.AtWork ∧ ∀ κ' ∈ κs, κ'.Waiting) :
    Stacked h w' place' u κs := by
  induction κs with
  | nil => trivial
  | cons κ' κs ih =>
    obtain ⟨hκ, hwork, hwait, hrest⟩ := hs
    refine ⟨hE.holds hκ ?_, hwork, hwait, ih hrest ?_⟩
    · exact hu.imp id fun hw => ⟨hw.1, hw.2 κ' (List.mem_cons_self ..)⟩
    · exact hu.imp id fun hw => ⟨hw.1, fun κ'' hmem => hw.2 κ'' (List.mem_cons_of_mem _ hmem)⟩

structure DeferredStep (h : GlueHost) (t : Nat) (κ κ' : DeferredPhase) (w : GlueWorld)
    (place : Nat → Place) (w' : GlueWorld) (place' : Nat → Place) : Prop where
  ledger : CallLedger h w' place'
  effect : FrameEffect t κ w place w' place'
  holds : κ'.Holds h w' place' t
  atWork : κ'.AtWork → κ.AtWork
  started : ∀ n u, place' n = .working u → place n = .working u
  stays : ∀ p task, κ = .working p task → κ' = κ ∨ place' task.call ≠ .working t

theorem DeferredStep.keep (hL : CallLedger h w' place) (hE : FrameEffect t κ w place w' place)
    (hκ : κ'.Holds h w' place t) (hw : κ'.AtWork → κ.AtWork)
    (hs : ∀ p task, κ = .working p task → κ' = κ) : DeferredStep h t κ κ' w place w' place where
  ledger := hL
  effect := hE
  holds := hκ
  atWork := hw
  started _ _ := id
  stays p task he := .inl (hs p task he)

theorem DeferredStep.enterCall (hL : CallLedger h w place) {p : Nat} {listener : Option Nat}
    {caller : CallerDoc} (deferred : Bool) (hl : w.eventCallback p = listener) :
    DeferredStep h t .outside
      (if deferred then .entered p w.calls.length else .direct p w.calls.length) w place
      (w.enterCall ⟨p, deferred, caller, listener⟩)
      (Function.update place w.calls.length (if deferred then .making t else .unplaced)) := by
  have hfresh := hL.fresh _ (Nat.le_refl w.calls.length)
  have hcall : (w.enterCall ⟨p, deferred, caller, listener⟩).calls[w.calls.length]? =
      some ⟨p, deferred, caller, listener⟩ := List.getElem?_concat_length
  have hpl : ¬ (if deferred = true then Place.making t else Place.unplaced).Handed := by
    split <;> exact id
  constructor
  · exact hL.enterCall _ hpl
  · constructor
    · exact enterCall_kept _
    · exact fun _ => List.Subset.refl _
    · exact fun n hn => handed_update (fun hh => absurd hh (by rw [hfresh]; exact id)) hn
    · exact fun n u _ hn => update_of_place (by rw [hfresh]; exact fun he => by cases he) hn
    · exact fun n u _ hn => update_of_place (by rw [hfresh]; exact fun he => by cases he) hn
    · exact fun _ _ _ => id
    · exact fun _ _ _ _ => id
    · intro n u _ _ hmem
      cases deferred with
      | false => exact hmem
      | true => exact List.mem_cons_of_mem _ hmem
    · exact fun _ _ _ _ => rfl
  · cases deferred with
    | false => exact ⟨_, hcall, rfl⟩
    | true =>
      refine ⟨Function.update_self .., List.mem_cons_self .., ⟨_, hcall, rfl, hl.symm⟩, ?_⟩
      intro q value hmem
      obtain ⟨call, hn, _⟩ := hL.drawn q _ hmem
      exact absurd (List.getElem?_eq_some_iff.1 hn).1 (Nat.lt_irrefl _)
  · cases deferred <;> exact id
  · intro n u hn
    refine place_of_update ?_ hn
    cases deferred <;> exact fun he => by cases he
  · intro p task he
    cases he

theorem DeferredStep.draw (hL : CallLedger h w place) {p n : Nat}
    (hκ : (entered p n).Holds h w place t) :
    DeferredStep h t (.entered p n)
      (.drawn p n ((h.provider p).callId (w.callCounter p))) w place (w.fetchAdd p n) place := by
  obtain ⟨hp, hcopy, hm, hn⟩ := hκ
  have hE : FrameEffect t (.entered p n) w place (w.fetchAdd p n) place := by
    refine { FrameEffect.keep rfl rfl rfl rfl rfl with draws := draws_subset w p n, undrawn := ?_ }
    intro m u hu hm' hnone q value hmem
    by_cases hq : q = p
    · subst hq
      simp only [GlueWorld.fetchAdd, Function.update_self, List.mem_cons] at hmem
      obtain he | hmem := hmem
      · obtain rfl := (Prod.mk.inj he).1
        rw [hp] at hm'
        exact hu (Place.making.inj hm').symm
      · exact hnone q value hmem
    · simp only [GlueWorld.fetchAdd, Function.update_of_ne hq] at hmem
      exact hnone q value hmem
  refine .keep (hL.fetchAdd hm hn) hE ⟨hp, hcopy, hm, ?_⟩ id fun p task he => by cases he
  refine ⟨w.callCounter p, ?_, rfl⟩
  simp only [GlueWorld.fetchAdd, Function.update_self]
  exact List.mem_cons_self ..

theorem DeferredStep.copy (hL : CallLedger h w place) {p n : Nat} {callId : String}
    (hκ : (drawn p n callId).Holds h w place t) :
    DeferredStep h t (.drawn p n callId) (.armed p n callId (w.eventCallback p)) w place
      (w.copyEventCallback n) place := by
  obtain ⟨hp, _, hm, hd⟩ := hκ
  have hE : FrameEffect t (.drawn p n callId) w place (w.copyEventCallback n) place := by
    refine { FrameEffect.keep rfl rfl rfl rfl rfl with copying := ?_ }
    intro m u hu hm' hmem
    refine List.mem_filter.2 ⟨hmem, decide_eq_true ?_⟩
    rintro rfl
    rw [hp] at hm'
    exact hu (Place.making.inj hm').symm
  exact .keep { hL with } hE ⟨hp, hm, hd⟩ id fun p task he => by cases he

theorem FrameEffect.move {n : Nat} {pl : Place} (hE : FrameEffect t κ w place w' place)
    (hn : place n = .making t ∨ κ.AtWork ∧ place n = .working t) (hpl : pl.Handed) :
    FrameEffect t κ w place w' (Function.update place n pl) := by
  refine { hE with handed := ?_, making := ?_, working := ?_ }
  · exact fun m hm => handed_update (fun _ => hpl) hm
  · intro m u hu hm
    refine update_of_place ?_ hm
    rintro he
    obtain hn | ⟨_, hn⟩ := hn
    · exact hu (Place.making.inj (he.symm.trans hn))
    · rw [hn] at he
      cases he
  · intro m u hu hm
    refine update_of_place ?_ hm
    rintro he
    obtain hn | ⟨hw, hn⟩ := hn
    · rw [hn] at he
      cases he
    · obtain hu | hu := hu
      · exact hu (Place.working.inj (he.symm.trans hn))
      · exact hu hw

theorem DeferredStep.queue (hL : CallLedger h w place) {p : Nat} {task : GlueTask}
    (hκ : (armed p task.call task.callId task.eventCb).Holds h w place t) :
    DeferredStep h t (.armed p task.call task.callId task.eventCb)
      (.returning p task.call task.callId) w place (w.startTask p task)
      (Function.update place task.call .queued) := by
  obtain ⟨hp, hm, hd⟩ := hκ
  have hE : FrameEffect t (.armed p task.call task.callId task.eventCb) w place
      (w.startTask p task) place := .keep rfl rfl rfl rfl rfl
  constructor
  · exact hL.startTask hp hm hd
  · exact hE.move (.inl hp) trivial
  · refine ⟨?_, ⟨_, hm⟩, hd⟩
    rw [Function.update_self]
    trivial
  · exact id
  · exact fun n u hn => place_of_update (fun he => by cases he) hn
  · intro q task' he
    cases he

theorem DeferredStep.complete (hL : CallLedger h w place) {p l : Nat} {task : GlueTask}
    (hκ : (working p task).Holds h w place t) (hl : task.eventCb = some l) (value : QVariant) :
    DeferredStep h t (.working p task) (.completed p task.call) w place
      { w with completions := ⟨task.call, l, task.callId, value⟩ :: w.completions }
      (Function.update place task.call .done) := by
  obtain ⟨hp, _, hm, hd⟩ := hκ
  constructor
  · exact hL.complete hp (hl ▸ hm) hd value
  · refine FrameEffect.move (.keep rfl rfl rfl rfl rfl) ?_ trivial
    exact .inr ⟨trivial, hp⟩
  · trivial
  · exact id
  · exact fun n u hn => place_of_update (fun he => by cases he) hn
  · intro q task' he
    cases he
    rw [Function.update_self]
    exact .inr fun hne => by cases hne

theorem finishTask_effect {frame : DeferredPhase} (hκ : frame.AtWork) (p : Nat) :
    FrameEffect t frame w place (w.finishTask p t) place := by
  refine { FrameEffect.keep rfl rfl rfl rfl rfl with busy := ?_ }
  intro q u hu hmem
  by_cases hq : q = p
  · subst hq
    simp only [GlueWorld.finishTask, Function.update_self]
    refine List.mem_filter.2 ⟨hmem, decide_eq_true ?_⟩
    exact hu.resolve_right fun hne => hne hκ
  · simpa only [GlueWorld.finishTask, Function.update_of_ne hq] using hmem

theorem DeferredStep.finish (hL : CallLedger h w place) {p : Nat} {task : GlueTask}
    (hκ : (working p task).Holds h w place t) (hl : task.eventCb = none) :
    DeferredStep h t (.working p task) .outside w place (w.finishTask p t)
      (Function.update place task.call .done) := by
  obtain ⟨hp, _, hm, _⟩ := hκ
  have hsettled : CallLedger h w (Function.update place task.call .done) := by
    refine hL.settle hp hm (List.Subset.refl _) (fun e he => .inl he) hL.completions_once ?_
    intro l hl'
    rw [hl] at hl'
    cases hl'
  constructor
  · exact hsettled.finishTask p t
  · have hatWork : (working p task).AtWork := trivial
    exact (finishTask_effect hatWork p).move (.inr ⟨hatWork, hp⟩) trivial
  · trivial
  · exact fun he => by cases he
  · exact fun n u hn => place_of_update (fun he => by cases he) hn
  · intro q task' he
    cases he
    rw [Function.update_self]
    exact .inr fun hne => by cases hne

theorem DeferredStep.reply (hL : CallLedger h w place) {p n : Nat} {callId : String}
    (hκ : (returning p n callId).Holds h w place t) :
    DeferredStep h t (.returning p n callId) .outside w place
      { w with returned := (n, h.pending callId) :: w.returned } place := by
  obtain ⟨hh, ⟨listener, call, hcall, rfl, _⟩, hd⟩ := hκ
  refine .keep (hL.reply hcall fun _ => ⟨hh, callId, hd, rfl⟩) (.keep rfl rfl rfl rfl rfl) trivial
    (fun he => by cases he) fun q task he => by cases he

theorem DeferredStep.of_move {a : GlueAction} {r : a.Ans} (hL : CallLedger h w place)
    (hκ : κ.Holds h w place t) (hm : Move h κ a r κ') (he : glueExec h t w a r w') :
    ∃ place', DeferredStep h t κ κ' w place w' place' := by
  cases hm with
  | openScope doc r =>
    obtain ⟨_, rfl⟩ := he
    exact ⟨place, .keep { hL with } (.keep rfl rfl rfl rfl rfl) trivial id fun _ _ _ => rfl⟩
  | closeScope doc r | unwind p n doc r =>
    obtain rfl := he
    exact ⟨place, .keep { hL with } (.keep rfl rfl rfl rfl rfl) hκ id fun _ _ _ => rfl⟩
  | listen p l r =>
    obtain ⟨hfree, rfl⟩ := he
    refine ⟨place, .keep { hL with } ?_ trivial id fun _ _ _ => rfl⟩
    refine { FrameEffect.keep rfl rfl rfl rfl rfl with listener := ?_, busy := fun _ _ _ => id }
    rintro q n hmem ⟨call, hcall, rfl, _⟩
    exact Function.update_of_ne (hfree n hmem call hcall) ..
  | enter p d n =>
    obtain ⟨rfl, rfl⟩ := he
    exact ⟨_, .enterCall hL d rfl⟩
  | pull p n r | pull' p n id cb r =>
    obtain ⟨_, rfl⟩ := he
    exact ⟨place, .keep hL (.keep rfl rfl rfl rfl rfl) hκ (fun hw => hw) fun _ _ _ => rfl⟩
  | tell p n q m doc r | tell' p task q m doc r =>
    obtain rfl := he
    exact ⟨place, .keep { hL with } (.keep rfl rfl rfl rfl rfl) hκ id fun _ _ _ => rfl⟩
  | list p n q r | list' p task q r | dispatch p n q m f d r | dispatch' p task m f d r =>
    obtain rfl := he
    exact ⟨place, .keep hL (.keep rfl rfl rfl rfl rfl) hκ id fun _ _ _ => rfl⟩
  | returned p n v r =>
    obtain rfl := he
    obtain ⟨call, hcall, hd⟩ := hκ
    refine ⟨place, .keep (hL.reply hcall fun hd' => ?_) (.keep rfl rfl rfl rfl rfl) trivial
      (fun hw => by cases hw) fun _ _ he => by cases he⟩
    rw [hd] at hd'
    cases hd'
  | draw p n r =>
    obtain ⟨rfl, rfl⟩ := he
    exact ⟨place, .draw hL hκ⟩
  | copy p n id r =>
    obtain ⟨rfl, rfl⟩ := he
    exact ⟨place, .copy hL hκ⟩
  | queue p task r =>
    obtain rfl := he
    exact ⟨_, .queue hL hκ⟩
  | returned' p n id r =>
    obtain rfl := he
    exact ⟨place, .reply hL hκ⟩
  | terminate p task r => cases he
  | dead p r => cases hκ
  | complete p task l v r hl =>
    obtain rfl := he
    exact ⟨_, .complete hL hκ hl v⟩
  | finish p task r hl =>
    obtain rfl := he
    exact ⟨_, .finish hL hκ hl⟩
  | finish' p n r =>
    obtain rfl := he
    have hatWork : (completed p n).AtWork := trivial
    exact ⟨place, .keep (hL.finishTask p t) (finishTask_effect hatWork p) trivial
      (fun hw => by cases hw) fun _ _ he => by cases he⟩

end

end LogosPluginQt
