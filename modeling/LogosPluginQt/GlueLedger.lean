import Mathlib.Algebra.Ring.Nat
import LogosPluginQt.GlueRuntime

namespace LogosPluginQt
open Interleaving Glue GlueWorld
set_option autoImplicit true

/-- Where a deferred call is: on the thread that makes it, in the queue, with a worker, or
past its completion. -/
inductive Place where
  | unplaced
  | making (t : Nat)
  | queued
  | working (t : Nat)
  | done

def Place.Handed : Place → Prop
  | .unplaced | .making _ => False
  | _ => True

def Numbered : List (Nat × BitVec 64) → Prop
  | [] => True
  | (_, value) :: draws => value = BitVec.ofNat 64 draws.length ∧ Numbered draws

/-- What the records, the queues and the pools say of every call, given where it is. -/
structure CallLedger (h : GlueHost) (w : GlueWorld) (place : Nat → Place) : Prop where
  fresh : ∀ n, w.calls.length ≤ n → place n = .unplaced
  numbered : ∀ p, Numbered (w.draws p)
  counter : ∀ p, w.callCounter p = BitVec.ofNat 64 (w.draws p).length
  drawn : ∀ p, ∀ draw ∈ w.draws p, ∃ call, w.calls[draw.1]? = some call ∧ call.provider = p
  once : ∀ p, ((w.draws p).map Prod.fst).Nodup
  queue : ∀ p, ∀ task ∈ w.queue p, place task.call = .queued ∧
    w.Made p task.call task.eventCb ∧ w.Drawn h p task.call task.callId
  queue_once : ∀ p, ((w.queue p).map GlueTask.call).Nodup
  queued : ∀ n, place n = .queued → ∃ p, ∃ task ∈ w.queue p, task.call = n
  done : ∀ n, place n = .done → ∃ call, w.calls[n]? = some call ∧
    ∀ listener, call.listener = some listener → ∃ e ∈ w.completions, e.call = n
  completions : ∀ e ∈ w.completions, place e.call = .done ∧
    ∃ p, w.Made p e.call (some e.listener) ∧ w.Drawn h p e.call e.callId
  completions_once : (w.completions.map Completion.call).Nodup
  returned : ∀ reply ∈ w.returned, ∃ call, w.calls[reply.1]? = some call ∧
    (call.deferred = true → (place reply.1).Handed ∧
      ∃ callId, w.Drawn h call.provider reply.1 callId ∧ reply.2 = h.pending callId)
  busy : ∀ p, (w.busy p).length ≤ h.workers p

section
variable {h : GlueHost} {w w' : GlueWorld} {place : Nat → Place} {p n t : Nat}

theorem GlueWorld.Made.mono {listener : Option Nat} (hm : w.Made p n listener)
    (hc : CallsKept w w') : w'.Made p n listener := by
  obtain ⟨call, hn, hcall⟩ := hm
  exact ⟨call, hc n call hn, hcall⟩

theorem GlueWorld.Made.lt {listener : Option Nat} (hm : w.Made p n listener) :
    n < w.calls.length := by
  obtain ⟨call, hn, _⟩ := hm
  exact (List.getElem?_eq_some_iff.1 hn).1

theorem GlueWorld.Made.provider {q : Nat} {listener : Option Nat} {call : GlueCall}
    (hm : w.Made q n listener) (hn : w.calls[n]? = some call) :
    call.provider = q ∧ call.listener = listener := by
  obtain ⟨call', hn', hcall⟩ := hm
  obtain rfl := Option.some.inj (hn.symm.trans hn')
  exact hcall

theorem GlueWorld.Drawn.mono {callId : String} (hd : w.Drawn h p n callId)
    (hs : ∀ p, w.draws p ⊆ w'.draws p) : w'.Drawn h p n callId := by
  obtain ⟨value, hv, he⟩ := hd
  exact ⟨value, hs p hv, he⟩

theorem place_of_update {pl pl' : Place} {m : Nat} (hne : pl ≠ pl')
    (hm : Function.update place n pl m = pl') : place m = pl' := by
  by_cases he : m = n
  · subst he
    rw [Function.update_self] at hm
    exact absurd hm hne
  · rwa [Function.update_of_ne he] at hm

theorem update_of_place {pl pl' : Place} {m : Nat} (hn : place n ≠ pl') (hm : place m = pl') :
    Function.update place n pl m = pl' := by
  rw [Function.update_of_ne ?_, hm]
  rintro rfl
  exact hn hm

theorem handed_update {pl : Place} {m : Nat} (hpl : (place n).Handed → pl.Handed)
    (hm : (place m).Handed) : (Function.update place n pl m).Handed := by
  by_cases he : m = n
  · subst he
    rw [Function.update_self]
    exact hpl hm
  · rwa [Function.update_of_ne he]

theorem Place.ne_of_handed {pl pl' : Place} (hpl : ¬ pl.Handed) (hpl' : pl'.Handed) :
    pl ≠ pl' := by
  rintro rfl
  exact hpl hpl'

theorem CallLedger.fresh_update (hL : CallLedger h w place) {listener : Option Nat}
    (hm : w.Made p n listener) (pl : Place) :
    ∀ m, w.calls.length ≤ m → Function.update place n pl m = .unplaced := by
  intro m hle
  have hne : m ≠ n := Nat.ne_of_gt (Nat.lt_of_lt_of_le hm.lt hle)
  rw [Function.update_of_ne hne, hL.fresh m hle]

theorem enterCall_kept (call : GlueCall) : CallsKept w (w.enterCall call) :=
  fun _ _ hn => getElem?_concat hn

theorem CallLedger.enterCall (hL : CallLedger h w place) (call : GlueCall) {pl : Place}
    (hpl : ¬ pl.Handed) :
    CallLedger h (w.enterCall call) (Function.update place w.calls.length pl) := by
  have hlen : (w.enterCall call).calls.length = w.calls.length + 1 := List.length_append
  have hfresh : ¬ (place w.calls.length).Handed := by
    rw [hL.fresh _ (Nat.le_refl _)]
    exact id
  refine { hL with
    fresh := ?_, drawn := ?_, queue := ?_, queued := ?_, done := ?_, completions := ?_,
    returned := ?_ }
  · intro m hm
    rw [hlen] at hm
    rw [Function.update_of_ne (by omega), hL.fresh m (by omega)]
  · intro p draw hd
    obtain ⟨call', hn, hp⟩ := hL.drawn p draw hd
    exact ⟨call', enterCall_kept call _ _ hn, hp⟩
  · intro p task ht
    obtain ⟨hq, hm, hd⟩ := hL.queue p task ht
    exact ⟨update_of_place (Place.ne_of_handed hfresh trivial) hq,
      hm.mono (enterCall_kept call), hd⟩
  · intro m hm
    exact hL.queued m (place_of_update (Place.ne_of_handed hpl trivial) hm)
  · intro m hm
    obtain ⟨call', hn, hdone⟩ := hL.done m (place_of_update (Place.ne_of_handed hpl trivial) hm)
    exact ⟨call', enterCall_kept call _ _ hn, hdone⟩
  · intro e he
    obtain ⟨hdone, p, hm, hd⟩ := hL.completions e he
    exact ⟨update_of_place (Place.ne_of_handed hfresh trivial) hdone, p,
      hm.mono (enterCall_kept call), hd⟩
  · intro reply hr
    obtain ⟨call', hn, hd⟩ := hL.returned reply hr
    exact ⟨call', enterCall_kept call _ _ hn, fun hdef =>
      ⟨handed_update (fun hh => absurd hh hfresh) (hd hdef).1, (hd hdef).2⟩⟩

theorem draws_subset (w : GlueWorld) (p n : Nat) (q : Nat) :
    w.draws q ⊆ (w.fetchAdd p n).draws q := by
  by_cases hq : q = p
  · subst hq
    simp only [fetchAdd, Function.update_self]
    exact List.subset_cons_self ..
  · simp only [fetchAdd, Function.update_of_ne hq]
    exact fun _ => id

theorem CallLedger.fetchAdd (hL : CallLedger h w place) {listener : Option Nat}
    (hm : w.Made p n listener) (hn : ∀ q value, (n, value) ∉ w.draws q) :
    CallLedger h (w.fetchAdd p n) place := by
  have hsub := draws_subset w p n
  refine { hL with
    numbered := ?_, counter := ?_, drawn := ?_, once := ?_, queue := ?_, completions := ?_,
    returned := ?_ }
  · apply (Function.forall_update_iff w.draws fun _ => Numbered).2
    exact ⟨⟨hL.counter p, hL.numbered p⟩, fun q _ => hL.numbered q⟩
  · intro q
    by_cases hq : q = p
    · subst hq
      simp only [GlueWorld.fetchAdd, Function.update_self, List.length_cons, hL.counter q,
        BitVec.ofNat_add]
      rfl
    · simp only [GlueWorld.fetchAdd, Function.update_of_ne hq]
      exact hL.counter q
  · apply (Function.forall_update_iff w.draws fun q draws => ∀ draw ∈ draws,
      ∃ call, w.calls[draw.1]? = some call ∧ call.provider = q).2
    obtain ⟨call, hcall, hp, _⟩ := hm
    exact ⟨List.forall_mem_cons.2 ⟨⟨call, hcall, hp⟩, hL.drawn p⟩, fun q _ => hL.drawn q⟩
  · apply (Function.forall_update_iff w.draws fun _ draws => (draws.map Prod.fst).Nodup).2
    refine ⟨List.nodup_cons.2 ⟨?_, hL.once p⟩, fun q _ => hL.once q⟩
    intro hmem
    obtain ⟨⟨_, value⟩, hd, rfl⟩ := List.mem_map.1 hmem
    exact hn p value hd
  · intro q task ht
    obtain ⟨hq, hmade, hd⟩ := hL.queue q task ht
    exact ⟨hq, hmade, hd.mono hsub⟩
  · intro e he
    obtain ⟨hdone, q, hmade, hd⟩ := hL.completions e he
    exact ⟨hdone, q, hmade, hd.mono hsub⟩
  · intro reply hr
    obtain ⟨call, hcall, hd⟩ := hL.returned reply hr
    refine ⟨call, hcall, fun hdef => ?_⟩
    obtain ⟨hh, callId, hdrawn, he⟩ := hd hdef
    exact ⟨hh, callId, hdrawn.mono hsub, he⟩

theorem CallLedger.startTask (hL : CallLedger h w place) {task : GlueTask}
    (hp : place task.call = .making t) (hm : w.Made p task.call task.eventCb)
    (hd : w.Drawn h p task.call task.callId) :
    CallLedger h (w.startTask p task) (Function.update place task.call .queued) := by
  have hkeep {pl : Place} {m : Nat} (hpl : pl.Handed) (he : place m = pl) :
      Function.update place task.call .queued m = pl :=
    update_of_place (hp ▸ Place.ne_of_handed id hpl) he
  refine { hL with
    fresh := ?_, queue := ?_, queue_once := ?_, queued := ?_, done := ?_, completions := ?_,
    returned := ?_ }
  · exact hL.fresh_update hm _
  · have hold (q : Nat) (task' : GlueTask) (ht : task' ∈ w.queue q) :
        Function.update place task.call .queued task'.call = .queued ∧
          w.Made q task'.call task'.eventCb ∧ w.Drawn h q task'.call task'.callId := by
      obtain ⟨hqueued, hrest⟩ := hL.queue q task' ht
      exact ⟨hkeep trivial hqueued, hrest⟩
    apply (Function.forall_update_iff w.queue fun q tasks => ∀ task' ∈ tasks,
      Function.update place task.call .queued task'.call = .queued ∧
        w.Made q task'.call task'.eventCb ∧ w.Drawn h q task'.call task'.callId).2
    refine ⟨List.forall_mem_append.2 ⟨hold p, ?_⟩, fun q _ => hold q⟩
    exact List.forall_mem_singleton.2 ⟨Function.update_self .., hm, hd⟩
  · apply (Function.forall_update_iff w.queue fun _ tasks => (tasks.map GlueTask.call).Nodup).2
    refine ⟨?_, fun q _ => hL.queue_once q⟩
    rw [List.map_append, List.map_singleton]
    refine List.nodup_append.2 ⟨hL.queue_once p, List.nodup_singleton _, ?_⟩
    rintro m hmem m' hmem' rfl
    obtain ⟨task', ht, rfl⟩ := List.mem_map.1 hmem
    have hqueued := (hL.queue p task' ht).1
    rw [List.mem_singleton.1 hmem', hp] at hqueued
    cases hqueued
  · intro m hqueued
    by_cases he : m = task.call
    · refine ⟨p, task, ?_, he.symm⟩
      simp only [GlueWorld.startTask, Function.update_self, List.mem_append, List.mem_singleton,
        or_true]
    · rw [Function.update_of_ne he] at hqueued
      obtain ⟨q, task', ht, hcall⟩ := hL.queued m hqueued
      refine ⟨q, task', ?_, hcall⟩
      by_cases hq : q = p
      · subst hq
        simp only [GlueWorld.startTask, Function.update_self]
        exact List.mem_append_left _ ht
      · simpa only [GlueWorld.startTask, Function.update_of_ne hq] using ht
  · intro m hdone
    exact hL.done m (place_of_update (fun hne => by cases hne) hdone)
  · intro e he
    obtain ⟨hdone, hrest⟩ := hL.completions e he
    exact ⟨hkeep trivial hdone, hrest⟩
  · intro reply hr
    obtain ⟨call, hcall, hdef⟩ := hL.returned reply hr
    exact ⟨call, hcall, fun hd' => ⟨handed_update (fun _ => trivial) (hdef hd').1, (hdef hd').2⟩⟩

theorem CallLedger.takeTask (hL : CallLedger h w place) {before after : List GlueTask}
    {task : GlueTask} (hq : w.queue p = before ++ task :: after)
    (hb : (w.busy p).length < h.workers p) :
    CallLedger h (w.takeTask p t (before ++ after))
      (Function.update place task.call (.working t)) := by
  have hmem : task ∈ w.queue p := hq ▸ List.mem_append_right _ (List.mem_cons_self ..)
  obtain ⟨hplace, hmade, hdrawn⟩ := hL.queue p task hmem
  have hsub : List.Sublist (before ++ after) (w.queue p) :=
    hq ▸ (List.sublist_cons_self task after).append_left before
  have hnodup := hL.queue_once p
  rw [hq, List.map_append, List.map_cons, List.nodup_middle, List.nodup_cons] at hnodup
  have hother {task' : GlueTask} (ht : task' ∈ before ++ after) : task'.call ≠ task.call := by
    intro he
    apply hnodup.1
    rw [← he, ← List.map_append]
    exact List.mem_map_of_mem ht
  refine { hL with
    fresh := ?_, queue := ?_, queue_once := ?_, queued := ?_, done := ?_, completions := ?_,
    returned := ?_, busy := ?_ }
  · exact hL.fresh_update hmade _
  · intro q task' ht
    by_cases hqp : q = p
    · subst hqp
      simp only [GlueWorld.takeTask, Function.update_self] at ht
      obtain ⟨hqueued, hrest⟩ := hL.queue q task' (hsub.subset ht)
      exact ⟨(Function.update_of_ne (hother ht) ..).trans hqueued, hrest⟩
    · simp only [GlueWorld.takeTask, Function.update_of_ne hqp] at ht
      obtain ⟨hqueued, hmade', hrest⟩ := hL.queue q task' ht
      refine ⟨(Function.update_of_ne ?_ ..).trans hqueued, hmade', hrest⟩
      intro he
      obtain ⟨call, hcall, hprov, _⟩ := hmade
      exact hqp ((hmade'.provider (he ▸ hcall)).1.symm.trans hprov)
  · apply (Function.forall_update_iff w.queue fun _ tasks => (tasks.map GlueTask.call).Nodup).2
    exact ⟨(hL.queue_once p).sublist (hsub.map _), fun q _ => hL.queue_once q⟩
  · intro m hqueued
    have hne : m ≠ task.call := by
      rintro rfl
      rw [Function.update_self] at hqueued
      cases hqueued
    rw [Function.update_of_ne hne] at hqueued
    obtain ⟨q, task', ht, rfl⟩ := hL.queued m hqueued
    refine ⟨q, task', ?_, rfl⟩
    by_cases hqp : q = p
    · subst hqp
      simp only [GlueWorld.takeTask, Function.update_self]
      rw [hq] at ht
      simp only [List.mem_append, List.mem_cons] at ht ⊢
      obtain ht | rfl | ht := ht
      · exact .inl ht
      · exact absurd rfl hne
      · exact .inr ht
    · simpa only [GlueWorld.takeTask, Function.update_of_ne hqp] using ht
  · intro m hdone
    exact hL.done m (place_of_update (fun hne => by cases hne) hdone)
  · intro e he
    obtain ⟨hdone, hrest⟩ := hL.completions e he
    exact ⟨update_of_place (fun hne => by rw [hplace] at hne; cases hne) hdone, hrest⟩
  · intro reply hr
    obtain ⟨call, hcall, hdef⟩ := hL.returned reply hr
    exact ⟨call, hcall, fun hd => ⟨handed_update (fun _ => trivial) (hdef hd).1, (hdef hd).2⟩⟩
  · apply (Function.forall_update_iff w.busy fun q busy => busy.length ≤ h.workers q).2
    exact ⟨hb, fun q _ => hL.busy q⟩

theorem CallLedger.settle (hL : CallLedger h w place) {listener : Option Nat} {cs : List Completion}
    (hp : place n = .working t) (hm : w.Made p n listener) (hsub : w.completions ⊆ cs)
    (hnew : ∀ e ∈ cs, e ∈ w.completions ∨
      e.call = n ∧ listener = some e.listener ∧ w.Drawn h p n e.callId)
    (hnodup : (cs.map Completion.call).Nodup)
    (hdone : ∀ l, listener = some l → ∃ e ∈ cs, e.call = n) :
    CallLedger h { w with completions := cs } (Function.update place n .done) := by
  have hwork {pl : Place} (hpl : ∀ u, pl ≠ .working u) : place n ≠ pl :=
    hp ▸ (hpl t).symm
  refine { hL with
    fresh := ?_, queue := ?_, queued := ?_, done := ?_, completions := ?_,
    completions_once := hnodup, returned := ?_ }
  · exact hL.fresh_update hm _
  · intro q task ht
    obtain ⟨hqueued, hrest⟩ := hL.queue q task ht
    exact ⟨update_of_place (hwork fun _ hne => by cases hne) hqueued, hrest⟩
  · intro m hqueued
    exact hL.queued m (place_of_update (fun hne => by cases hne) hqueued)
  · intro m hm'
    by_cases he : m = n
    · subst he
      obtain ⟨call, hcall, _, rfl⟩ := hm
      exact ⟨call, hcall, hdone⟩
    · rw [Function.update_of_ne he] at hm'
      obtain ⟨call, hcall, hevent⟩ := hL.done m hm'
      refine ⟨call, hcall, fun l hl => ?_⟩
      obtain ⟨e, hmem, hcall'⟩ := hevent l hl
      exact ⟨e, hsub hmem, hcall'⟩
  · intro e he
    obtain hold | ⟨rfl, rfl, hd⟩ := hnew e he
    · obtain ⟨hplace, hrest⟩ := hL.completions e hold
      exact ⟨update_of_place (hwork fun _ hne => by cases hne) hplace, hrest⟩
    · exact ⟨Function.update_self .., p, hm, hd⟩
  · intro reply hr
    obtain ⟨call, hcall, hdef⟩ := hL.returned reply hr
    exact ⟨call, hcall, fun hd => ⟨handed_update (fun _ => trivial) (hdef hd).1, (hdef hd).2⟩⟩

theorem CallLedger.complete (hL : CallLedger h w place) {l : Nat} {callId : String}
    (hp : place n = .working t) (hm : w.Made p n (some l)) (hd : w.Drawn h p n callId)
    (value : QVariant) :
    CallLedger h { w with completions := ⟨n, l, callId, value⟩ :: w.completions }
      (Function.update place n .done) := by
  refine hL.settle hp hm (List.subset_cons_self ..) ?_ ?_ fun _ _ =>
    ⟨_, List.mem_cons_self .., rfl⟩
  · intro e he
    obtain rfl | he := List.mem_cons.1 he
    · exact .inr ⟨rfl, rfl, hd⟩
    · exact .inl he
  · refine List.nodup_cons.2 ⟨?_, hL.completions_once⟩
    intro hmem
    obtain ⟨e, he, hcall⟩ := List.mem_map.1 hmem
    have hdone := (hL.completions e he).1
    rw [hcall, hp] at hdone
    cases hdone

theorem CallLedger.finishTask (hL : CallLedger h w place) (p t : Nat) :
    CallLedger h (w.finishTask p t) place := by
  refine { hL with busy := ?_ }
  apply (Function.forall_update_iff w.busy fun q busy => busy.length ≤ h.workers q).2
  exact ⟨Nat.le_trans (List.length_filter_le ..) (hL.busy p), fun q _ => hL.busy q⟩

theorem CallLedger.reply (hL : CallLedger h w place) {value : QVariant} {call : GlueCall}
    (hn : w.calls[n]? = some call)
    (hd : call.deferred = true → (place n).Handed ∧
      ∃ callId, w.Drawn h call.provider n callId ∧ value = h.pending callId) :
    CallLedger h { w with returned := (n, value) :: w.returned } place := by
  refine { hL with returned := ?_ }
  intro reply hr
  obtain rfl | hr := List.mem_cons.1 hr
  · exact ⟨call, hn, hd⟩
  · exact hL.returned reply hr

/-! The ids that are drawn are pairwise different. -/

theorem numbered_lt {draws : List (Nat × BitVec 64)} (hn : Numbered draws)
    (hlen : draws.length ≤ 2 ^ 64) : ∀ draw ∈ draws, draw.2.toNat < draws.length := by
  induction draws with
  | nil => exact fun _ hmem => absurd hmem List.not_mem_nil
  | cons draw draws ih =>
    obtain ⟨n, value⟩ := draw
    obtain ⟨rfl, hn⟩ := hn
    rw [List.length_cons] at hlen ⊢
    refine List.forall_mem_cons.2 ⟨?_, fun draw' hmem => ?_⟩
    · rw [BitVec.toNat_ofNat, Nat.mod_eq_of_lt (by omega)]
      omega
    · have := ih hn (by omega) draw' hmem
      omega

theorem numbered_nodup {draws : List (Nat × BitVec 64)} (hn : Numbered draws)
    (hlen : draws.length ≤ 2 ^ 64) : (draws.map fun draw => draw.2.toNat).Nodup := by
  induction draws with
  | nil => exact List.nodup_nil
  | cons draw draws ih =>
    obtain ⟨n, value⟩ := draw
    obtain ⟨rfl, hn⟩ := hn
    rw [List.length_cons] at hlen
    refine List.nodup_cons.2 ⟨?_, ih hn (by omega)⟩
    intro hmem
    obtain ⟨draw', hd, he⟩ := List.mem_map.1 hmem
    have hlt := numbered_lt hn (by omega) draw' hd
    simp only [BitVec.toNat_ofNat] at he
    rw [he, Nat.mod_eq_of_lt (by omega)] at hlt
    omega

/-- The id names the provider's instance, by the fixed width of its prefix, and the number
drawn from its counter. -/
theorem callId_inj {p q : GlueProvider} {value value' : BitVec 64}
    (he : p.callId value = q.callId value') :
    p.uuid.digits = q.uuid.digits ∧ value = value' := by
  have hs := congrArg String.toList he
  simp only [GlueProvider.callId, GlueProvider.callIdPrefix, String.toList_append,
    List.append_assoc, List.append_cancel_left_eq] at hs
  have hwidth : p.uuid.digits.toList.length = q.uuid.digits.toList.length := by
    rw [String.length_toList, String.length_toList, p.uuid.width, q.uuid.width]
  obtain ⟨hdigits, hnumber⟩ := List.append_inj hs hwidth
  refine ⟨String.toList_injective hdigits, BitVec.eq_of_toNat_eq ?_⟩
  have hdecimal : Nat.toDigits 10 value.toNat = Nat.toDigits 10 value'.toNat := by
    rw [← Nat.toList_repr, ← Nat.toList_repr]
    exact List.append_cancel_left hnumber
  rw [← Nat.ofDigitChars_ten_toDigits (n := value.toNat), hdecimal,
    Nat.ofDigitChars_ten_toDigits]

theorem CallLedger.drawn_same (hL : CallLedger h w place) {q : Nat} {callId callId' : String}
    (hd : w.Drawn h p n callId) (hd' : w.Drawn h q n callId') : p = q ∧ callId = callId' := by
  obtain ⟨value, hv, rfl⟩ := hd
  obtain ⟨value', hv', rfl⟩ := hd'
  obtain ⟨call, hcall, rfl⟩ := hL.drawn p _ hv
  obtain ⟨call', hcall', rfl⟩ := hL.drawn q _ hv'
  obtain rfl := Option.some.inj (hcall.symm.trans hcall')
  have he := List.inj_on_of_nodup_map (hL.once call.provider) hv hv' rfl
  obtain rfl := (Prod.mk.inj he).2
  exact ⟨rfl, rfl⟩

theorem CallLedger.drawn_inj (hL : CallLedger h w place)
    (hsize : ∀ p, (w.draws p).length ≤ 2 ^ 64)
    (huuid : ∀ p q, w.draws p ≠ [] → w.draws q ≠ [] →
      (h.provider p).uuid.digits = (h.provider q).uuid.digits → p = q)
    {q n' : Nat} {callId : String} (hd : w.Drawn h p n callId) (hd' : w.Drawn h q n' callId) :
    n = n' := by
  obtain ⟨value, hv, rfl⟩ := hd
  obtain ⟨value', hv', he⟩ := hd'
  obtain ⟨hdigits, rfl⟩ := callId_inj he
  obtain rfl := huuid _ _ (List.ne_nil_of_mem hv') (List.ne_nil_of_mem hv) hdigits
  have hnodup := numbered_nodup (hL.numbered q) (hsize q)
  exact (Prod.mk.inj (List.inj_on_of_nodup_map hnodup hv hv' rfl)).1

end

end LogosPluginQt
