import LogosPluginQt.Draining
import LogosPluginQt.GlueEvents

namespace LogosPluginQt
open Interleaving Relation
set_option autoImplicit true

inductive EventPhase where
  | registering (callback : Option Nat)
  | stored
  | emitting (e : Emission)
  | checking (n : Nat) (e : Emission)
  | calling (n : Nat) (e : Emission)
  | done

namespace EventPhase

def checked (n : Nat) (e : Emission) (callback : Option Nat) : EventPhase :=
  if callback.isSome && e.eventName.isSome then .calling n e else .done

inductive Move (h : EventHost) : EventPhase → (a : EventAction) → a.Ans → EventPhase → Prop
  | store (callback x) : Move h (.registering callback) (.storeEventCallback callback) x .stored
  | set (x) : Move h .stored .setEmitCallback x .done
  | emit (e x) : Move h (.emitting e) (.emit e) x (if x.2 then .checking x.1 e else .done)
  | check (n e callback) :
      Move h (.checking n e) (.eventCallback n e.eventName) callback (checked n e callback)
  | call (n e eventName data x) : e.eventName.map h.fromUtf8 = some eventName →
      data = GlueEvents.data h e →
      Move h (.calling n e) (.callListener n eventName data) x .done

theorem Move.unique {h : EventHost} {κ κ₁ κ₂ : EventPhase} {a : EventAction} {x : a.Ans}
    (h₁ : Move h κ a x κ₁) (h₂ : Move h κ a x κ₂) : κ₁ = κ₂ := by
  cases h₁ <;> cases h₂ <;> rfl

open Classical in
noncomputable def next (h : EventHost) (κ : EventPhase) (a : EventAction) (x : a.Ans) :
    Option EventPhase :=
  if hm : ∃ κ', Move h κ a x κ' then some hm.choose else none

theorem next_iff {h : EventHost} {κ κ' : EventPhase} {a : EventAction} {x : a.Ans} :
    next h κ a x = some κ' ↔ Move h κ a x κ' := by
  unfold next
  constructor
  · intro hn
    split at hn
    next hm =>
      obtain rfl := Option.some.inj hn
      exact hm.choose_spec
    next => cases hn
  · intro hm
    have hex : ∃ κ', Move h κ a x κ' := ⟨κ', hm⟩
    rw [dif_pos hex]
    exact congrArg some (hex.choose_spec.unique hm)

def owns : EventPhase → Option Nat
  | .checking n e => if e.eventName.isSome then some n else none
  | .calling n _ => some n
  | _ => none

def Holds (w : EventWorld) : EventPhase → Prop
  | .registering callback => callback.isSome
  | .stored => w.callback.isSome
  | .emitting _ | .done => True
  | .checking n e => w.emissions[n]? = some (e, true)
  | .calling n e => w.emissions[n]? = some (e, true) ∧ e.eventName.isSome

end EventPhase

open EventPhase

section
variable {h : EventHost}

theorem setEventListener_registers (callback : Option Nat) :
    Follows (next h) (fun _ κ => κ = .done) (GlueEvents.setEventListener callback)
      (.registering callback) :=
  fun _ => ⟨.stored, next_iff.2 (.store ..), fun _ => ⟨.done, next_iff.2 (.set _), rfl⟩⟩

theorem emitTrampoline_calls (n : Nat) (e : Emission) :
    Follows (next h) (fun _ κ => κ = .done) (GlueEvents.emitTrampoline h n e)
      (.checking n e) := by
  intro callback
  refine ⟨_, next_iff.2 (.check n e callback), ?_⟩
  cases callback with
  | none => exact rfl
  | some listener =>
    cases he : e.eventName with
    | none =>
      simp only [Prog.bind, checked, he, Option.isSome_none, Bool.and_false,
        Bool.false_eq_true, ↓reduceIte]
      exact rfl
    | some name =>
      simp only [Prog.bind, checked, he, Option.isSome_some, Bool.and_self, ↓reduceIte]
      exact fun _ => ⟨.done, next_iff.2 (.call n e _ _ _ (by rw [he]; rfl) rfl), rfl⟩

theorem emit_emits (e : Emission) :
    Follows (next h) (fun _ κ => κ = .done) (GlueEvents.emit h e) (.emitting e) := by
  rintro ⟨n, installed⟩
  refine ⟨_, next_iff.2 (.emit e _), ?_⟩
  cases installed with
  | false => exact rfl
  | true => exact emitTrampoline_calls n e

end

/-- The delivery is of an emission that came as far as the glue, and says all of it. -/
def EventDelivery.Of (h : EventHost) (w : EventWorld) (d : EventDelivery) : Prop :=
  ∃ e, w.emissions[d.emission]? = some (e, true) ∧
    e.eventName.map h.fromUtf8 = some d.eventName ∧ d.data = GlueEvents.data h e

structure EventWorld.Grows (w w' : EventWorld) : Prop where
  emissions : ∀ (n : Nat) (emission : Emission × Bool), w.emissions[n]? = some emission →
    w'.emissions[n]? = some emission
  callback : w.callback.isSome → w'.callback.isSome

def handedOver (deliveries : List EventDelivery) : Multiset (Option Nat) :=
  deliveries.map fun d => some d.emission

/-- What is owed is in the hands of one frame or has been delivered, and nothing else is. -/
def EventShares (w : EventWorld) (φ : Nat → List EventPhase) : Prop :=
  ∃ M, Interleaving.Holds (fun _ => owns) φ M ∧
    ∀ n, (M + handedOver w.deliveries).count (some n) = if w.owed n then 1 else 0

/-- Who keeps the member from being replaced is a frame that has yet to call through it. -/
def EventCalls (w : EventWorld) (φ : Nat → List EventPhase) : Prop :=
  ∀ n ∈ w.calling, ∃ t e, calling n e ∈ φ t

structure EventInvariant (h : EventHost) (w : EventWorld) (φ : Nat → List EventPhase) :
    Prop where
  frames : ∀ t, ∀ κ ∈ φ t, κ.Holds w
  listened : w.emitCallback = true → w.callback.isSome
  marked : ∀ (n : Nat) (e : Emission), w.emissions[n]? = some (e, true) → w.emitCallback = true
  played : ReflTransGen EventBus.Step {} w.bus
  faithful : ∀ d ∈ w.deliveries, d.Of h w
  shares : EventShares w φ
  calls : EventCalls w φ

section
variable {h : EventHost} {w w' : EventWorld} {φ : Nat → List EventPhase} {t : Nat}
  {κ κ' : EventPhase} {rest : List EventPhase}

theorem EventPhase.Holds.mono (hκ : κ.Holds w) (hg : w.Grows w') : κ.Holds w' := by
  cases κ with
  | registering callback => exact hκ
  | stored => exact hg.callback hκ
  | emitting e => trivial
  | checking n e => exact hg.emissions n _ hκ
  | calling n e => exact ⟨hg.emissions n _ hκ.1, hκ.2⟩
  | done => trivial

theorem EventDelivery.Of.mono {d : EventDelivery} (hd : d.Of h w) (hg : w.Grows w') :
    d.Of h w' := by
  obtain ⟨e, he, hname, hdata⟩ := hd
  exact ⟨e, hg.emissions _ _ he, hname, hdata⟩

theorem EventWorld.owed_length (w : EventWorld) : w.owed w.emissions.length = false := by
  rw [owed, List.getElem?_eq_none (Nat.le_refl _), Option.any_none]

theorem EventWorld.owed_emit (w : EventWorld) (e : Emission) (installed : Bool) (n : Nat) :
    EventWorld.owed { w with emissions := w.emissions ++ [(e, installed)] } n =
      if n = w.emissions.length then installed && e.eventName.isSome else w.owed n := by
  split
  next hn =>
    subst hn
    rw [owed, List.getElem?_concat_length, Option.any_some]
  next hn =>
    rw [owed, owed, List.getElem?_append]
    split
    next => rfl
    next hlt =>
      rw [List.getElem?_eq_none (l := [(e, installed)]) (by rw [List.length_singleton]; omega),
        List.getElem?_eq_none (by omega)]

theorem EventWorld.emission_cases {emissions : List (Emission × Bool)}
    {emission new : Emission × Bool} {n : Nat}
    (hn : (emissions ++ [new])[n]? = some emission) :
    emissions[n]? = some emission ∨ emission = new := by
  rw [List.getElem?_append] at hn
  split at hn
  next => exact .inl hn
  next => exact .inr (List.mem_singleton.1 (List.mem_of_getElem? hn))

theorem EventWorld.Grows.emit (w : EventWorld) (e : Emission) (installed : Bool) :
    w.Grows { w with emissions := w.emissions ++ [(e, installed)] } where
  emissions n emission hn := by
    obtain ⟨hlt, _⟩ := List.getElem?_eq_some_iff.1 hn
    exact (List.getElem?_append_left hlt).trans hn
  callback := id

theorem EventShares.update (hS : EventShares w φ) {l : List EventPhase}
    (xs ys : List EventPhase) (ht : (φ t).Perm (xs ++ rest)) (hl : l.Perm (ys ++ rest))
    (hcount : ∀ n, (ys.map owns : Multiset (Option Nat)).count (some n) +
        (handedOver w'.deliveries).count (some n) + (if w.owed n then 1 else 0) =
      (xs.map owns : Multiset (Option Nat)).count (some n) +
        (handedOver w.deliveries).count (some n) + if w'.owed n then 1 else 0) :
    EventShares w' (Function.update φ t l) := by
  obtain ⟨M, hM, hshares⟩ := hS
  obtain ⟨M', hM', he⟩ := hM.replace xs ys ht hl
  refine ⟨M', hM', fun n => ?_⟩
  have hbalance := congrArg (Multiset.count (some n)) he
  have hn := hcount n
  have hold := hshares n
  rw [Multiset.count_add] at hbalance hold ⊢
  rw [Multiset.count_add] at hbalance
  omega

theorem count_owns (κ : EventPhase) (n : Nat) :
    ([κ].map owns : Multiset (Option Nat)).count (some n) = if some n = κ.owns then 1 else 0 :=
  Multiset.count_singleton (some n) κ.owns

theorem count_handedOver (d : EventDelivery) (deliveries : List EventDelivery) (n : Nat) :
    (handedOver (d :: deliveries)).count (some n) =
      (if some n = some d.emission then 1 else 0) + (handedOver deliveries).count (some n) := by
  rw [handedOver, List.map_cons, ← Multiset.cons_coe, Multiset.count_cons, Nat.add_comm]
  rfl

theorem owns_emitted {installed : Bool} {m n : Nat} {e : Emission} :
    some n = (if installed then checking m e else done).owns ↔
      n = m ∧ (installed && e.eventName.isSome) = true := by
  cases installed with
  | false => simp [owns]
  | true => cases he : e.eventName <;> simp [owns, he]

theorem EventShares.run (hS : EventShares w φ) (hφ : φ t = κ :: rest) (κ' : EventPhase)
    (hcount : ∀ n, (if some n = κ'.owns then 1 else 0) +
        (handedOver w'.deliveries).count (some n) + (if w.owed n then 1 else 0) =
      (if some n = κ.owns then 1 else 0) + (handedOver w.deliveries).count (some n) +
        if w'.owed n then 1 else 0) :
    EventShares w' (Function.update φ t (κ' :: rest)) := by
  refine hS.update [κ] [κ'] (.of_eq hφ) (.refl _) fun n => ?_
  rw [count_owns, count_owns]
  exact hcount n

theorem frames_move (hF : ∀ t, ∀ κ ∈ φ t, κ.Holds w) (hφ : φ t = κ :: rest)
    (hg : w.Grows w') (hκ' : κ'.Holds w') :
    ∀ u, ∀ κ ∈ Function.update φ t (κ' :: rest) u, κ.Holds w' := by
  have hrest : ∀ κ ∈ rest, κ.Holds w' := fun κ hκ =>
    (hF t κ (hφ ▸ List.mem_cons_of_mem _ hκ)).mono hg
  exact (Function.forall_update_iff φ fun _ κs => ∀ κ ∈ κs, κ.Holds w').2
    ⟨List.forall_mem_cons.2 ⟨hκ', hrest⟩, fun u _ κ hκ => (hF u κ hκ).mono hg⟩

theorem EventCalls.update (hC : EventCalls w φ) (xs ys : List EventPhase)
    (hφ : φ t = xs ++ rest)
    (hkept : ∀ n ∈ w'.calling, (n ∈ w.calling ∧ ∀ e, calling n e ∉ xs) ∨
      ∃ e, calling n e ∈ ys) :
    EventCalls w' (Function.update φ t (ys ++ rest)) := by
  intro n hn
  rcases hkept n hn with ⟨hold, hxs⟩ | ⟨e, hys⟩
  · obtain ⟨u, e, hu⟩ := hC n hold
    refine ⟨u, e, mem_update_of hu fun hut => ?_⟩
    rw [hut, hφ] at hu
    exact List.mem_append_right ys ((List.mem_append.1 hu).resolve_left (hxs e))
  · refine ⟨t, e, ?_⟩
    rw [Function.update_self]
    exact List.mem_append_left rest hys

theorem EventCalls.run (hC : EventCalls w φ) (hφ : φ t = κ :: rest) (κ' : EventPhase)
    (hw : w'.calling = w.calling) (hκ : ∀ n e, κ ≠ calling n e) :
    EventCalls w' (Function.update φ t (κ' :: rest)) :=
  hC.update [κ] [κ'] hφ fun n hn =>
    .inl ⟨hw ▸ hn, fun e hmem => hκ n e (List.mem_singleton.1 hmem).symm⟩

theorem EventWorld.bus_listen (w : EventWorld) (listener : Nat) :
    ReflTransGen EventBus.Step w.bus (EventWorld.bus { w with callback := some listener }) := by
  unfold EventWorld.bus
  cases w.emitCallback with
  | false => exact .refl
  | true => exact .single (.listen _ listener)

theorem EventInvariant.store (hI : EventInvariant h w φ) {callback : Option Nat}
    (hφ : φ t = .registering callback :: rest) :
    EventInvariant h { w with callback := callback }
      (Function.update φ t (.stored :: rest)) := by
  have hcallback := hI.frames t _ (hφ ▸ List.mem_cons_self ..)
  obtain ⟨listener, rfl⟩ := Option.isSome_iff_exists.1 hcallback
  have hg : w.Grows { w with callback := some listener } := ⟨fun _ _ => id, fun _ => rfl⟩
  exact {
    frames := frames_move hI.frames hφ hg rfl
    listened := fun _ => rfl
    marked := hI.marked
    played := hI.played.trans (w.bus_listen listener)
    faithful := fun d hd => (hI.faithful d hd).mono hg
    shares := hI.shares.run hφ _ fun _ => rfl
    calls := hI.calls.run hφ _ rfl fun _ _ => EventPhase.noConfusion }

theorem EventInvariant.set (hI : EventInvariant h w φ) (hφ : φ t = .stored :: rest) :
    EventInvariant h { w with emitCallback := true } (Function.update φ t (.done :: rest)) := by
  have hcallback : EventPhase.stored.Holds w := hI.frames t _ (hφ ▸ List.mem_cons_self ..)
  have hg : w.Grows { w with emitCallback := true } := ⟨fun _ _ => id, id⟩
  have hbus : ReflTransGen EventBus.Step w.bus
      (EventWorld.bus { w with emitCallback := true }) := by
    obtain ⟨listener, hl⟩ := Option.isSome_iff_exists.1 hcallback
    unfold EventWorld.bus
    rw [hl]
    exact .single (.listen _ listener)
  exact {
    frames := frames_move hI.frames hφ hg trivial
    listened := fun _ => hcallback
    marked := fun _ _ _ => rfl
    played := hI.played.trans hbus
    faithful := fun d hd => (hI.faithful d hd).mono hg
    shares := hI.shares.run hφ _ fun _ => rfl
    calls := hI.calls.run hφ _ rfl fun _ _ => EventPhase.noConfusion }

theorem EventInvariant.emit (hI : EventInvariant h w φ) {e : Emission}
    (hφ : φ t = .emitting e :: rest) :
    EventInvariant h { w with emissions := w.emissions ++ [(e, w.emitCallback)] }
      (Function.update φ t
        ((if w.emitCallback then .checking w.emissions.length e else .done) :: rest)) := by
  have hg := EventWorld.Grows.emit w e w.emitCallback
  constructor
  · refine frames_move hI.frames hφ hg ?_
    cases hinstalled : w.emitCallback with
    | false => trivial
    | true => exact List.getElem?_concat_length
  · exact hI.listened
  · intro n e' hn
    obtain hn | hn := EventWorld.emission_cases hn
    · exact hI.marked n e' hn
    · exact (Prod.mk.inj hn).2.symm
  · exact hI.played
  · exact fun d hd => (hI.faithful d hd).mono hg
  · refine hI.shares.run hφ _ fun n => ?_
    have hnone : some n ≠ (EventPhase.emitting e).owns := Option.some_ne_none n
    rw [EventWorld.owed_emit, if_neg hnone]
    by_cases hn : n = w.emissions.length
    · rw [if_pos hn, hn, w.owed_length]
      simp only [owns_emitted, true_and, Bool.false_eq_true, ↓reduceIte]
      omega
    · rw [if_neg hn]
      simp only [owns_emitted, hn, false_and, ↓reduceIte]
  · exact hI.calls.run hφ _ rfl fun _ _ => EventPhase.noConfusion

theorem EventInvariant.check (hI : EventInvariant h w φ) {n : Nat} {e : Emission}
    (hφ : φ t = .checking n e :: rest) :
    EventInvariant h { w with calling :=
        if w.callback.isSome && e.eventName.isSome then n :: w.calling else w.calling }
      (Function.update φ t (checked n e w.callback :: rest)) := by
  have hκ : (EventPhase.checking n e).Holds w := hI.frames t _ (hφ ▸ List.mem_cons_self ..)
  have hcallback : w.callback.isSome := hI.listened (hI.marked n e hκ)
  have hchecked : checked n e w.callback =
      if e.eventName.isSome then .calling n e else .done := by
    rw [checked, hcallback, Bool.true_and]
  have howns : (checked n e w.callback).owns = (EventPhase.checking n e).owns := by
    rw [hchecked, owns]
    split <;> rfl
  exact {
    frames := by
      refine frames_move hI.frames hφ ⟨fun _ _ => id, id⟩ ?_
      rw [hchecked]
      cases hname : e.eventName.isSome with
      | false => trivial
      | true => exact ⟨hκ, hname⟩
    listened := hI.listened
    marked := hI.marked
    played := hI.played
    faithful := hI.faithful
    shares := hI.shares.run hφ _ fun m => by
      rw [howns]
      rfl
    calls := by
      refine hI.calls.update [_] [_] hφ fun m hm => ?_
      have hother : ∀ e', calling m e' ∉ [EventPhase.checking n e] := fun e' hmem =>
        EventPhase.noConfusion (List.mem_singleton.1 hmem)
      dsimp only at hm
      split at hm
      next hgoes =>
        rcases List.mem_cons.1 hm with rfl | hm
        · exact .inr ⟨e, by rw [checked, if_pos hgoes]; exact List.mem_singleton_self _⟩
        · exact .inl ⟨hm, hother⟩
      next => exact .inl ⟨hm, hother⟩ }

theorem EventInvariant.call (hI : EventInvariant h w φ) {n listener : Nat} {e : Emission}
    (hφ : φ t = .calling n e :: rest) {eventName : String}
    (hname : e.eventName.map h.fromUtf8 = some eventName) (hl : w.callback = some listener) :
    EventInvariant h { w with
        calling := w.calling.filter (· ≠ n)
        deliveries := ⟨n, listener, eventName, GlueEvents.data h e⟩ :: w.deliveries }
      (Function.update φ t (.done :: rest)) := by
  have hκ : (EventPhase.calling n e).Holds w := hI.frames t _ (hφ ▸ List.mem_cons_self ..)
  have hinstalled := hI.marked n e hκ.1
  have hg : w.Grows { w with
      calling := w.calling.filter (· ≠ n)
      deliveries := ⟨n, listener, eventName, GlueEvents.data h e⟩ :: w.deliveries } :=
    ⟨fun _ _ => id, id⟩
  exact {
    frames := frames_move hI.frames hφ hg trivial
    listened := hI.listened
    marked := hI.marked
    played := hI.played.tail (.deliver _ _ (by rw [EventWorld.bus, hinstalled]; exact hl))
    faithful := List.forall_mem_cons.2
      ⟨⟨e, hκ.1, hname, rfl⟩, fun d hd => (hI.faithful d hd).mono hg⟩
    shares := hI.shares.run hφ _ fun m => by
      have hnone : some m ≠ EventPhase.done.owns := Option.some_ne_none m
      rw [if_neg hnone, count_handedOver, Nat.zero_add]
      rfl
    calls := by
      refine hI.calls.update [_] [_] hφ fun m hm => .inl ?_
      obtain ⟨hm, hne⟩ := List.mem_filter.1 hm
      refine ⟨hm, fun e' hmem => of_decide_eq_true hne ?_⟩
      injection List.mem_singleton.1 hmem }

theorem EventInvariant.move (hI : EventInvariant h w φ) (hφ : φ t = κ :: rest)
    {a : EventAction} {x : a.Ans} (hm : Move h κ a x κ') (he : eventExec t w a x w') :
    EventInvariant h w' (Function.update φ t (κ' :: rest)) := by
  cases hm with
  | store callback =>
    obtain ⟨_, rfl⟩ := he
    exact hI.store hφ
  | set =>
    obtain rfl := he
    exact hI.set hφ
  | emit e =>
    obtain ⟨rfl, rfl⟩ := he
    exact hI.emit hφ
  | check n e =>
    obtain ⟨rfl, rfl⟩ := he
    exact hI.check hφ
  | call n e eventName data _ hname hdata =>
    obtain ⟨listener, hl, rfl⟩ := he
    subst hdata
    exact hI.call hφ hname hl

theorem EventInvariant.initial (h : EventHost) : EventInvariant h {} fun _ => [] where
  frames _ _ hκ := absurd hκ List.not_mem_nil
  listened hinstalled := absurd hinstalled Bool.false_ne_true
  marked _ _ hn := absurd hn (Option.some_ne_none _).symm
  played := .refl
  faithful _ hd := absurd hd List.not_mem_nil
  shares := ⟨0, .empty, fun _ => rfl⟩
  calls _ hn := absurd hn List.not_mem_nil

theorem EventInvariant.leave (hI : EventInvariant h w φ) (hφ : φ t = .done :: rest) :
    EventInvariant h w (Function.update φ t rest) where
  frames := (Function.forall_update_iff φ fun _ κs => ∀ κ ∈ κs, κ.Holds w).2
    ⟨fun κ hκ => hI.frames t κ (hφ ▸ List.mem_cons_of_mem _ hκ), fun u _ => hI.frames u⟩
  listened := hI.listened
  marked := hI.marked
  played := hI.played
  faithful := hI.faithful
  shares := hI.shares.update [.done] [] (.of_eq hφ) (.refl _) fun _ => rfl
  calls := hI.calls.update [.done] [] hφ fun _ hn =>
    .inl ⟨hn, fun _ hmem => EventPhase.noConfusion (List.mem_singleton.1 hmem)⟩

theorem EventInvariant.push (hI : EventInvariant h w φ) (t : Nat) (hκ : κ.Holds w)
    (howns : κ.owns = none) : EventInvariant h w (Function.update φ t (κ :: φ t)) where
  frames := (Function.forall_update_iff φ fun _ κs => ∀ κ ∈ κs, κ.Holds w).2
    ⟨List.forall_mem_cons.2 ⟨hκ, hI.frames t⟩, fun u _ => hI.frames u⟩
  listened := hI.listened
  marked := hI.marked
  played := hI.played
  faithful := hI.faithful
  shares := hI.shares.update [] [κ] (.refl _) (.refl _) fun _ => by
    rw [count_owns, howns, if_neg (Option.some_ne_none _)]
    rfl
  calls := hI.calls.update [] [κ] rfl fun _ hn =>
    .inl ⟨hn, fun _ => List.not_mem_nil⟩

end

section
variable {h : EventHost} {w w' : EventWorld} {φ : Nat → List EventPhase} {t : Nat}

theorem EventEnter.events (hset : ∀ callback, h.sets callback → callback.isSome)
    {within : Option EventAction} {prog : EventProg Unit} (he : EventEnter h w within prog w')
    (hI : EventInvariant h w φ) :
    ∃ κ, Follows (next h) (fun _ κ => κ = .done) prog κ ∧
      EventInvariant h w' (Function.update φ t (κ :: φ t)) := by
  cases he with
  | setEventListener callback hsets =>
    exact ⟨_, setEventListener_registers callback, hI.push t (hset callback hsets) rfl⟩
  | emit e => exact ⟨_, emit_emits e, hI.push t trivial rfl⟩

theorem EventShares.settled (hS : EventShares w φ) (hφ : ∀ t, φ t = []) (n : Nat)
    (hn : w.owed n = true) : ∃ d ∈ w.deliveries, d.emission = n := by
  obtain ⟨M, hM, hcount⟩ := hS
  have hdelivered := hcount n
  rw [hM.eq_zero hφ, zero_add, if_pos hn] at hdelivered
  have hmem : some n ∈ handedOver w.deliveries :=
    Multiset.count_pos.1 (by rw [hdelivered]; exact Nat.one_pos)
  obtain ⟨d, hd, he⟩ := List.mem_map.1 (Multiset.mem_coe.1 hmem)
  exact ⟨d, hd, Option.some.inj he⟩

end

end LogosPluginQt
