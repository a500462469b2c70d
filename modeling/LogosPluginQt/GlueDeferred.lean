import LogosPluginQt.GlueDeferredSteps
import LogosPluginQt.GlueReply

namespace LogosPluginQt
open Interleaving Glue GlueWorld DeferredPhase
set_option autoImplicit true

structure DeferredInvariant (h : GlueHost) (w : GlueWorld) (φ : Nat → List DeferredPhase)
    (place : Nat → Place) : Prop where
  ledger : CallLedger h w place
  stack : ∀ t, Stacked h w place t (φ t)
  workers : ∀ n t, place n = .working t → ∃ p task, .working p task ∈ φ t ∧ task.call = n

section
variable {h : GlueHost} {w w' : GlueWorld} {place place' : Nat → Place} {t : Nat}
  {κ κ' : DeferredPhase} {φ : Nat → List DeferredPhase} {rest : List DeferredPhase}

theorem DeferredInvariant.top (hI : DeferredInvariant h w φ place) (hφ : φ t = κ :: rest) :
    κ.Holds h w place t ∧ (κ.AtWork → rest = []) ∧ (∀ κ' ∈ rest, κ'.Waiting) ∧
      Stacked h w place t rest := by
  have hs := hI.stack t
  rwa [hφ] at hs

theorem DeferredInvariant.run (hI : DeferredInvariant h w φ place) (hφ : φ t = κ :: rest)
    (hE : DeferredStep h t κ κ' w place w' place') :
    DeferredInvariant h w' (Function.update φ t (κ' :: rest)) place' := by
  obtain ⟨_, hwork, hwait, hrest⟩ := hI.top hφ
  constructor
  · exact hE.ledger
  · apply (Function.forall_update_iff φ (Stacked h w' place')).2
    refine ⟨⟨hE.holds, fun hw => hwork (hE.atWork hw), hwait, ?_⟩,
      fun u hu => hE.effect.stacked (hI.stack u) (.inl hu)⟩
    by_cases hκ : κ.AtWork
    · rw [hwork hκ]
      trivial
    · exact hE.effect.stacked hrest (.inr ⟨hκ, hwait⟩)
  · intro n u hn
    obtain ⟨p, task, hmem, rfl⟩ := hI.workers n u (hE.started n u hn)
    refine ⟨p, task, mem_update_of hmem ?_, rfl⟩
    rintro rfl
    rw [hφ] at hmem
    obtain hκ | hmem := List.mem_cons.1 hmem
    · obtain hκ' | hgone := hE.stays p task hκ.symm
      · exact List.mem_cons.2 (.inl (hκ.trans hκ'.symm))
      · exact absurd hn hgone
    · exact List.mem_cons_of_mem _ hmem

theorem DeferredInvariant.leave (hI : DeferredInvariant h w φ place) (hφ : φ t = κ :: rest)
    (hκ : κ.mayReturn) : DeferredInvariant h w (Function.update φ t rest) place := by
  constructor
  · exact hI.ledger
  · apply (Function.forall_update_iff φ (Stacked h w place)).2
    exact ⟨(hI.top hφ).2.2.2, fun u _ => hI.stack u⟩
  · intro n u hn
    obtain ⟨p, task, hmem, hcall⟩ := hI.workers n u hn
    refine ⟨p, task, mem_update_of hmem ?_, hcall⟩
    rintro rfl
    rw [hφ] at hmem
    obtain rfl | hmem := List.mem_cons.1 hmem
    · cases hκ
    · exact hmem

theorem Stacked.holds {κs : List DeferredPhase} (hs : Stacked h w place t κs)
    (hmem : κ ∈ κs) : κ.Holds h w place t := by
  induction κs with
  | nil => cases hmem
  | cons κ' κs ih =>
    obtain rfl | hmem := List.mem_cons.1 hmem
    · exact hs.1
    · exact ih hs.2.2.2 hmem

theorem DeferredInvariant.initial (h : GlueHost) :
    DeferredInvariant h {} (fun _ => []) fun _ => .unplaced where
  ledger :=
    { fresh := fun _ _ => rfl
      numbered := fun _ => trivial
      counter := fun _ => rfl
      drawn := fun _ _ hmem => absurd hmem List.not_mem_nil
      once := fun _ => List.nodup_nil
      queue := fun _ _ hmem => absurd hmem List.not_mem_nil
      queue_once := fun _ => List.nodup_nil
      queued := fun _ he => by cases he
      done := fun _ he => by cases he
      completions := fun _ hmem => absurd hmem List.not_mem_nil
      completions_once := List.nodup_nil
      returned := fun _ hmem => absurd hmem List.not_mem_nil
      busy := fun _ => Nat.zero_le _ }
  stack _ := trivial
  workers _ _ he := by cases he

theorem DeferredInvariant.enter (hI : DeferredInvariant h w φ place)
    (hw : ∀ κ ∈ φ t, κ.Waiting) :
    DeferredInvariant h w (Function.update φ t (.outside :: φ t)) place := by
  constructor
  · exact hI.ledger
  · apply (Function.forall_update_iff φ (Stacked h w place)).2
    refine ⟨⟨trivial, ?_, hw, hI.stack t⟩, fun u _ => hI.stack u⟩
    intro hne
    cases hne
  · intro n u hn
    obtain ⟨p, task, hmem, hcall⟩ := hI.workers n u hn
    refine ⟨p, task, mem_update_of hmem ?_, hcall⟩
    rintro rfl
    exact List.mem_cons_of_mem _ hmem

theorem DeferredInvariant.work (hI : DeferredInvariant h w φ place) (hφ : φ t = []) {p : Nat}
    {before after : List GlueTask} {task : GlueTask} (hq : w.queue p = before ++ task :: after)
    (hb : (w.busy p).length < h.workers p) :
    DeferredInvariant h (w.takeTask p t (before ++ after))
      (Function.update φ t [.working p task]) (Function.update place task.call (.working t)) := by
  have hmem : task ∈ w.queue p := hq ▸ List.mem_append_right _ (List.mem_cons_self ..)
  obtain ⟨hqueued, hm, hd⟩ := hI.ledger.queue p task hmem
  have hE : FrameEffect t .outside w place (w.takeTask p t (before ++ after))
      (Function.update place task.call (.working t)) := by
    have hne {pl : Place} (hpl : pl ≠ .queued) : place task.call ≠ pl := hqueued ▸ hpl.symm
    have hkeep : FrameEffect t .outside w place { w with queue := w.queue } place :=
      .keep rfl rfl rfl rfl rfl
    refine { hkeep with handed := ?_, making := ?_, working := ?_, busy := ?_ }
    · exact fun n hn => handed_update (fun _ => trivial) hn
    · exact fun n u _ hn => update_of_place (hne fun he => by cases he) hn
    · exact fun n u _ hn => update_of_place (hne fun he => by cases he) hn
    · intro q u _
      revert q
      apply (Function.forall_update_iff w.busy fun q busy => u ∈ w.busy q → u ∈ busy).2
      exact ⟨List.mem_cons_of_mem _, fun _ _ => id⟩
  constructor
  · exact hI.ledger.takeTask hq hb
  · apply (Function.forall_update_iff φ (Stacked h (w.takeTask p t (before ++ after)) _)).2
    refine ⟨⟨⟨Function.update_self .., ?_, hm, hd⟩, fun _ => rfl,
      fun _ hmem => absurd hmem List.not_mem_nil, trivial⟩,
      fun u hu => hE.stacked (hI.stack u) (.inl hu)⟩
    simp only [takeTask, Function.update_self]
    exact List.mem_cons_self ..
  · intro n u hn
    by_cases he : n = task.call
    · subst he
      rw [Function.update_self] at hn
      obtain rfl := Place.working.inj hn
      rw [Function.update_self]
      exact ⟨p, task, List.mem_singleton_self _, rfl⟩
    · rw [Function.update_of_ne he] at hn
      obtain ⟨q, task', hmem', hcall⟩ := hI.workers n u hn
      refine ⟨q, task', mem_update_of hmem' ?_, hcall⟩
      rintro rfl
      rw [hφ] at hmem'
      cases hmem'

theorem waiting_of_leaves {a : GlueAction} (ha : a.leavesGlue = true)
    (hnext : ∀ r, ∃ κ', next h κ a r = some κ') : κ.Waiting := by
  cases a with
  | dispatch p n m d =>
    obtain ⟨κ', hn⟩ := hnext none
    cases next_move hn <;> trivial
  | getMethods p =>
    obtain ⟨κ', hn⟩ := hnext none
    cases next_move hn <;> trivial
  | eventCb l n id v =>
    obtain ⟨κ', hn⟩ := hnext ()
    cases next_move hn
    trivial
  | _ => cases ha

theorem GlueEnter.defers {within : Option GlueAction} {prog : GlueProg Unit}
    (he : GlueEnter h t w within prog w') (hI : DeferredInvariant h w φ place)
    (hw : ∀ κ ∈ φ t, κ.Waiting) (ht : within = none → φ t = []) :
    ∃ κ, Follows (next h) (fun _ κ => κ.mayReturn) prog κ ∧
      ∃ place', DeferredInvariant h w' (Function.update φ t (κ :: φ t)) place' := by
  cases he with
  | receive p methodName args => exact ⟨_, receive_keeps methodName args, place, hI.enter hw⟩
  | deliver p scope methodName args =>
    exact ⟨_, deliver_keeps scope methodName args, place, hI.enter hw⟩
  | setEventListener p listener =>
    exact ⟨.outside, fun _ => ⟨_, rfl, trivial⟩, place, hI.enter hw⟩
  | @work p before after task hq hb =>
    rw [ht rfl]
    exact ⟨_, runTask_keeps task, _, hI.work (ht rfl) hq hb⟩

theorem deferred_invariant (h : GlueHost) :
    PhaseInvariant (glueSystem h) (next h) (fun _ κ => κ.mayReturn)
      (fun w φ => ∃ place, DeferredInvariant h w φ place) where
  run hI hφ he hn := by
    obtain ⟨place, hI⟩ := hI
    obtain ⟨place', hE⟩ := DeferredStep.of_move hI.ledger (hI.top hφ).1 (next_move hn) he
    exact ⟨place', hI.run hφ hE⟩
  leave hI hφ hκ := by
    obtain ⟨place, hI⟩ := hI
    exact ⟨place, hI.leave hφ hκ⟩
  enter hI hφ he := by
    obtain ⟨place, hI⟩ := hI
    have hs := he.defers hI (hφ ▸ fun _ hmem => absurd hmem List.not_mem_nil) fun _ => hφ
    rwa [hφ] at hs
  nest hI hφ hallowed he := by
    obtain ⟨place, hI⟩ := hI
    refine he.defers hI ?_ fun hne => by cases hne
    rw [hφ]
    exact List.forall_mem_cons.2 ⟨waiting_of_leaves he.leavesGlue hallowed, (hI.top hφ).2.2.1⟩

def dispatching (p : Nat) (prog : GlueProg Unit) : Bool :=
  match prog.pending with
  | some (.dispatch q _ _ _) => q = p
  | _ => false

structure DeferredSafe (h : GlueHost) (c : GlueConfig) : Prop where
  distinct : ∀ p n callId q n' callId', c.shared.Drawn h p n callId →
    c.shared.Drawn h q n' callId' → (n = n' ↔ callId = callId')
  answers : ∀ t p n methodName args, methodName ≠ "lidl" → ∃ callId w',
    Runs (glueExec h t) c.shared (callMethodMulti h p n methodName args)
      (.ok (h.pending callId)) w' ∧ w'.Drawn h p n callId
  returned : ∀ n value call, (n, value) ∈ c.shared.returned →
    c.shared.calls[n]? = some call → call.deferred = true →
    ∃ callId, value = h.pending callId ∧ c.shared.Drawn h call.provider n callId
  bounded : ∀ p, (h.provider p).multi = true → ∀ ts : List Nat, ts.Nodup →
    (ts.map fun t => (c.stack t).countP (dispatching p)).sum ≤ h.workers p
  once : (c.shared.completions.map Completion.callId).Nodup
  addressed : ∀ e ∈ c.shared.completions, ∃ p, c.shared.Drawn h p e.call e.callId ∧
    c.shared.Made p e.call (some e.listener)
  drained : ∀ p, c.shared.queue p = [] → c.shared.busy p = [] →
    ∀ n value call listener, (n, value) ∈ c.shared.returned →
    c.shared.calls[n]? = some call → call.provider = p → call.deferred = true →
    call.listener = some listener →
    ∃ e ∈ c.shared.completions, e.call = n ∧ e.listener = listener ∧
      value = h.pending e.callId

/-- Only a worker of the pool dispatches for a multi provider, one at a time. -/
theorem countP_dispatching {p : Nat} (hp : (h.provider p).multi = true)
    {progs : List (GlueProg Unit)} {κs : List DeferredPhase}
    (hf : List.Forall₂ (Follows (next h) fun _ κ => κ.mayReturn) progs κs)
    (hs : Stacked h w place t κs) :
    progs.countP (dispatching p) ≤ if t ∈ w.busy p then 1 else 0 := by
  induction hf with
  | nil => exact Nat.zero_le _
  | @cons prog κ progs κs hκ hf ih =>
    obtain ⟨hholds, hwork, _, hrest⟩ := hs
    by_cases hd : dispatching p prog = true
    · unfold dispatching at hd
      split at hd
      next q n method dumped hpending =>
        obtain rfl := of_decide_eq_true hd
        cases prog with
        | ret => cases hpending
        | act a resume =>
          obtain rfl := Option.some.inj hpending
          obtain ⟨κ', hn, _⟩ := hκ none
          cases next_move hn with
          | dispatch _ _ _ _ _ _ _ hm =>
            rw [hp] at hm
            cases hm
          | dispatch' =>
            obtain rfl := hwork trivial
            obtain rfl := List.forall₂_nil_right_iff.1 hf
            rw [if_pos hholds.2.1]
            exact Nat.le_trans (List.countP_le_length ..) (Nat.le_refl _)
      next => cases hd
    · rw [List.countP_cons_of_neg hd]
      exact ih hrest

theorem sum_le_length {ts busy : List Nat} (hts : ts.Nodup) {f : Nat → Nat}
    (hf : ∀ t, f t ≤ if t ∈ busy then 1 else 0) : (ts.map f).sum ≤ busy.length := by
  have hsum : (ts.map f).sum ≤ (ts.filter (· ∈ busy)).length := by
    clear hts
    induction ts with
    | nil => exact Nat.le_refl _
    | cons t ts ih =>
      have ht := hf t
      rw [List.map_cons, List.sum_cons, List.filter_cons]
      by_cases hb : t ∈ busy
      · simp only [hb, ↓reduceIte, decide_true, List.length_cons] at ht ⊢
        omega
      · simp only [hb, ↓reduceIte, decide_false, Bool.false_eq_true] at ht ⊢
        omega
  have hsub : ts.filter (· ∈ busy) ⊆ busy := fun t ht =>
    of_decide_eq_true (List.mem_filter.1 ht).2
  exact Nat.le_trans hsum ((hts.filter _).length_le_of_subset hsub)

theorem currentCallerJson_runs (w : GlueWorld) (t p : Nat) :
    ∃ doc, Runs (glueExec h t) w (currentCallerJson h p) doc w := by
  unfold currentCallerJson
  split
  · exact ⟨_, .ret _ _⟩
  · split
    · refine Exists.imp (fun doc => Runs.act ⟨rfl, rfl⟩) ?_
      cases hv : (if h.hostHasInvokable then some (h.logosApiCurrentCallerJson (w.scope t))
        else none) with
      | none => exact ⟨_, .ret _ _⟩
      | some caller =>
        simp only [Prog.bind]
        split <;> exact ⟨_, .ret _ _⟩
    · exact ⟨_, .ret _ _⟩

theorem callMethodMulti_runs (w : GlueWorld) (t p n : Nat) {methodName : String}
    (hl : methodName ≠ "lidl") (args : List QVariant) :
    ∃ callId w', Runs (glueExec h t) w (callMethodMulti h p n methodName args)
      (.ok (h.pending callId)) w' ∧ w'.Drawn h p n callId := by
  obtain ⟨doc, hpull⟩ := currentCallerJson_runs (h := h)
    ((w.fetchAdd p n).copyEventCallback n) t p
  unfold callMethodMulti
  rw [if_neg hl]
  refine ⟨_, _, .act ⟨rfl, rfl⟩ (.act ⟨rfl, rfl⟩
    ((runs_bind (p := currentCallerJson h p)).2 ⟨doc, _, hpull, .act (r := ()) rfl (.ret _ _)⟩)),
    w.callCounter p, ?_, rfl⟩
  simp only [startTask, copyEventCallback, fetchAdd, Function.update_self]
  exact List.mem_cons_self ..

theorem DeferredInvariant.drained (hI : DeferredInvariant h w φ place) {p n : Nat}
    {call : GlueCall} {listener : Nat} (hq : w.queue p = []) (hb : w.busy p = [])
    (hn : w.calls[n]? = some call) (hp : call.provider = p) (hh : (place n).Handed)
    (hl : call.listener = some listener) : ∃ e ∈ w.completions, e.call = n := by
  cases hplace : place n with
  | unplaced | making =>
    rw [hplace] at hh
    cases hh
  | queued =>
    obtain ⟨q, task, hmem, rfl⟩ := hI.ledger.queued n hplace
    obtain ⟨hprov, _⟩ := (hI.ledger.queue q task hmem).2.1.provider hn
    rw [← hprov, hp, hq] at hmem
    cases hmem
  | working t =>
    obtain ⟨q, task, hmem, rfl⟩ := hI.workers n t hplace
    obtain ⟨_, hbusy, hm, _⟩ := (hI.stack t).holds hmem
    rw [← (hm.provider hn).1, hp, hb] at hbusy
    cases hbusy
  | done =>
    obtain ⟨call', hn', hdone⟩ := hI.ledger.done n hplace
    obtain rfl := Option.some.inj (hn.symm.trans hn')
    exact hdone listener hl

/-- Deferred calls complete exactly once, under ids of their own, on a bounded pool. -/
theorem deferred_safe {h : GlueHost} {c : GlueConfig} (hr : Reachable (glueSystem h) {} c)
    (hsize : ∀ p, (c.shared.draws p).length ≤ 2 ^ 64)
    (huuid : ∀ p q, c.shared.draws p ≠ [] → c.shared.draws q ≠ [] →
      (h.provider p).uuid.digits = (h.provider q).uuid.digits → p = q) : DeferredSafe h c := by
  obtain ⟨φ, hc, place, hI⟩ := (deferred_invariant h).reachable ⟨_, .initial h⟩ hr
  have hL := hI.ledger
  constructor
  · intro p n callId q n' callId' hd hd'
    constructor
    · rintro rfl
      exact (hL.drawn_same hd hd').2
    · rintro rfl
      exact hL.drawn_inj hsize huuid hd hd'
  · exact fun t p n methodName args hl => callMethodMulti_runs c.shared t p n hl args
  · intro n value call hmem hn hdef
    obtain ⟨call', hn', hreply⟩ := hL.returned _ hmem
    obtain rfl := Option.some.inj (hn.symm.trans hn')
    obtain ⟨_, callId, hd, he⟩ := hreply hdef
    exact ⟨callId, he, hd⟩
  · intro p hp ts hts
    have hsum := sum_le_length hts fun t => countP_dispatching hp (hc t) (hI.stack t)
    exact Nat.le_trans hsum (hL.busy p)
  · have hevents : c.shared.completions.Nodup := hL.completions_once.of_map _
    refine hevents.map_on ?_
    intro e he e' he' hid
    obtain ⟨_, p, _, hd⟩ := hL.completions e he
    obtain ⟨_, q, _, hd'⟩ := hL.completions e' he'
    rw [← hid] at hd'
    exact List.inj_on_of_nodup_map hL.completions_once he he' (hL.drawn_inj hsize huuid hd hd')
  · intro e he
    obtain ⟨_, p, hm, hd⟩ := hL.completions e he
    exact ⟨p, hd, hm⟩
  · intro p hq hb n value call listener hmem hn hp hdef hl
    obtain ⟨call', hn', hreply⟩ := hL.returned _ hmem
    obtain rfl := Option.some.inj (hn.symm.trans hn')
    obtain ⟨hh, callId, hd, rfl⟩ := hreply hdef
    obtain ⟨e, he, rfl⟩ := hI.drained hq hb hn hp hh hl
    obtain ⟨_, q, hm, hd'⟩ := hL.completions e he
    obtain ⟨_, hl'⟩ := hm.provider hn
    obtain ⟨_, rfl⟩ := hL.drawn_same hd hd'
    exact ⟨e, he, rfl, Option.some.inj (hl'.symm.trans hl), rfl⟩

end

theorem workerReply_refusal (w : GlueWorld) (t call : Nat) (callId callerJson : String) :
    Runs (glueExec (plainHost true) t) w
      (workerReply (plainHost true) 0
        (makeTask (plainHost true) 0 call "run" [] callId (some 7) callerJson) (some refusalText))
      (.ok ((plainHost true).codec.nlohmannToQVariant refusalJson)) w := by
  have hvoid : Delivered (plainHost true)
      (replyOf (plainHost true) 0 "run" true (some refusalText)) refusalJson :=
    (delivered_replyOf_iff (parse_refusalText true) refusalJson_refusal).2 (.inl (by decide))
  rw [workerReply_eq]
  exact hvoid.1 ▸ .ret _ _

/-- What a worker leaves that has had a call refused: it completes it all the same. -/
def GlueWorld.refused (w : GlueWorld) (t call : Nat) (callId callerJson : String) : GlueWorld :=
  let told := (w.setCallCaller 0 t (some callerJson)).setCallCaller 0 t none
  { told with
    completions := ⟨call, 7, callId, (plainHost true).codec.nlohmannToQVariant refusalJson⟩ ::
      told.completions }.finishTask 0 t

theorem runTask_refused (w : GlueWorld) (t call : Nat) (callId callerJson : String) :
    Runs (glueExec (plainHost true) t) w
      (runTask (plainHost true) 0
        (makeTask (plainHost true) 0 call "run" [] callId (some 7) callerJson)) ()
      (w.refused t call callId callerJson) :=
  (runs_bind (p := workerDispatch (plainHost true) 0 _)).2 ⟨some refusalText, _,
    .act (r := ()) rfl (.act (r := some refusalText) rfl (.act (r := ()) rfl (.ret _ _))),
    (runs_bind (p := workerReply (plainHost true) 0 _ _)).2 ⟨_, _,
      workerReply_refusal _ _ _ _ _, .act (r := ()) rfl (.act (r := ()) rfl (.ret _ _))⟩⟩

/-- Two calls in flight at once: both queued, each taken by a worker of its own, and the later
one completed first. -/
theorem deferred_safe_completed : ∃ c,
    c.shared.completions.map (fun e => (e.call, e.callId)) =
      [(0, ((plainHost true).provider 0).callId 0), (1, ((plainHost true).provider 0).callId 1)] ∧
    DeferredSafe (plainHost true) c := by
  have h₀ := Reachable.refl (glueSystem (plainHost true)) {}
  have h₁ := h₀.call (t := 0) (p := perform (.setEventListener 0 7)) rfl
    (.setEventListener 0 7 fun _ hmem => absurd hmem (by simp))
    (.act (r := ()) ⟨fun _ hmem => absurd hmem List.not_mem_nil, rfl⟩ (.ret _ _))
  have h₂ := h₁.call (t := 0) (p := receive (plainHost true) 0 "run" []) rfl
    (.receive 0 "run" [] fun _ hmem => absurd hmem (by simp))
    (.act (r := 0) ⟨rfl, rfl⟩ (.act (r := 0) ⟨rfl, rfl⟩ (.act (r := some 7) ⟨rfl, rfl⟩
      (.act (r := some (plainHost true).callerUnknownJson.text) ⟨rfl, rfl⟩
        (.act (r := ()) rfl (.act (r := ()) rfl (.ret _ _)))))))
  have h₃ := h₂.call (t := 0) (p := receive (plainHost true) 0 "run" []) rfl
    (.receive 0 "run" [] fun _ hmem => absurd hmem (by simp))
    (.act (r := 1) ⟨rfl, rfl⟩ (.act (r := 1) ⟨rfl, rfl⟩ (.act (r := some 7) ⟨rfl, rfl⟩
      (.act (r := some (plainHost true).callerUnknownJson.text) ⟨rfl, rfl⟩
        (.act (r := ()) rfl (.act (r := ()) rfl (.ret _ _)))))))
  have h₄ := h₃.step (.enter (t := 1) rfl (.work 0 [] [_] rfl (by decide)))
  have h₅ := h₄.call (t := 2) rfl (.work 0 [] [] rfl (by decide)) (runTask_refused ..)
  have h₆ := h₅.advance (t := 1) rfl (runTask_refused ..).advances
  let draws : Nat → List (Nat × BitVec 64) :=
    Function.update (Function.update (fun _ => []) 0 [(0, 0)]) 0 [(1, 1), (0, 0)]
  have hdraws (p : Nat) (hp : p ≠ 0) : draws p = [] :=
    (Function.update_of_ne hp ..).trans (Function.update_of_ne hp ..)
  have hsize (p : Nat) : (draws p).length ≤ 2 ^ 64 := by
    by_cases hp : p = 0
    · subst hp
      exact Nat.le_of_ble_eq_true rfl
    · rw [hdraws p hp]
      exact Nat.zero_le _
  have huuid (p q : Nat) (hp : draws p ≠ []) (hq : draws q ≠ []) : p = q :=
    (Decidable.not_not.1 fun hne => hp (hdraws p hne)).trans
      (Decidable.not_not.1 fun hne => hq (hdraws q hne)).symm
  exact ⟨_, rfl, deferred_safe h₆ hsize fun p q hp hq _ => huuid p q hp hq⟩

end LogosPluginQt
