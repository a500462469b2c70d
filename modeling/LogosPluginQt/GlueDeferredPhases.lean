import LogosPluginQt.GlueRuntime

namespace LogosPluginQt
open Interleaving Glue GlueWorld
set_option autoImplicit true

/-- How far a frame has brought a call: one it answers itself, one it defers, or a deferred
one it completes. -/
inductive DeferredPhase where
  | outside
  | direct (p n : Nat)
  | entered (p n : Nat)
  | drawn (p n : Nat) (callId : String)
  | armed (p n : Nat) (callId : String) (eventCb : Option Nat)
  | returning (p n : Nat) (callId : String)
  | working (p : Nat) (task : GlueTask)
  | completed (p n : Nat)
  | terminated

namespace DeferredPhase

def next (h : GlueHost) : DeferredPhase → (a : GlueAction) → a.Ans → Option DeferredPhase
  | .outside, .openScope _, _ | .outside, .closeScope _, _
  | .outside, .setEventListener _ _, _ => some .outside
  | .outside, .enterCall p deferred, n => some (if deferred then .entered p n else .direct p n)
  | .direct p n, .closeScope _, _ | .direct p n, .invokeCurrentCallerJson, _
  | .direct p n, .setCallCaller _ _ _, _ | .direct p n, .getMethods _, _ => some (.direct p n)
  | .direct p n, .dispatch q _ _ _, _ =>
    if (h.provider q).multi = false then some (.direct p n) else none
  | .direct _ n, .returned m _, _ => if m = n then some .outside else none
  | .entered p n, .fetchAdd q m, value =>
    if q = p ∧ m = n then some (.drawn p n ((h.provider p).callId value)) else none
  | .drawn p n callId, .eventCallback q m, eventCb =>
    if q = p ∧ m = n then some (.armed p n callId eventCb) else none
  | .armed p n callId eventCb, .invokeCurrentCallerJson, _ => some (.armed p n callId eventCb)
  | .armed p n callId eventCb, .startTask q task, _ =>
    if q = p ∧ task.call = n ∧ task.callId = callId ∧ task.eventCb = eventCb then
      some (.returning p n callId)
    else none
  | .returning _ n callId, .returned m (.map [(key, .string callId')]), _ =>
    if m = n ∧ key = h.pendingCallKey ∧ callId' = callId then some .outside else none
  | .working p task, .setCallCaller _ _ _, _ | .working p task, .getMethods _, _ =>
    some (.working p task)
  | .working _ _, .terminate, _ => some .terminated
  | .working p task, .dispatch q _ _ _, _ => if q = p then some (.working p task) else none
  | .working p task, .eventCb listener m callId _, _ =>
    if task.eventCb = some listener ∧ m = task.call ∧ callId = task.callId then
      some (.completed p task.call)
    else none
  | .working p task, .finishTask q, _ =>
    if q = p ∧ task.eventCb = none then some .outside else none
  | .completed p _, .finishTask q, _ => if q = p then some .outside else none
  | .terminated, .finishTask _, _ => some .outside
  | _, _, _ => none

inductive Move (h : GlueHost) : DeferredPhase → (a : GlueAction) → a.Ans → DeferredPhase → Prop
  | openScope (doc r) : Move h .outside (.openScope doc) r .outside
  | closeScope (doc r) : Move h .outside (.closeScope doc) r .outside
  | listen (p l r) : Move h .outside (.setEventListener p l) r .outside
  | enter (p d n) : Move h .outside (.enterCall p d) n (if d then .entered p n else .direct p n)
  | unwind (p n doc r) : Move h (.direct p n) (.closeScope doc) r (.direct p n)
  | pull (p n r) : Move h (.direct p n) .invokeCurrentCallerJson r (.direct p n)
  | tell (p n q m doc r) : Move h (.direct p n) (.setCallCaller q m doc) r (.direct p n)
  | list (p n q r) : Move h (.direct p n) (.getMethods q) r (.direct p n)
  | dispatch (p n q m f d r) : (h.provider q).multi = false →
      Move h (.direct p n) (.dispatch q m f d) r (.direct p n)
  | returned (p n v r) : Move h (.direct p n) (.returned n v) r .outside
  | draw (p n r) : Move h (.entered p n) (.fetchAdd p n) r
      (.drawn p n ((h.provider p).callId r))
  | copy (p n id r) : Move h (.drawn p n id) (.eventCallback p n) r (.armed p n id r)
  | pull' (p n id cb r) :
      Move h (.armed p n id cb) .invokeCurrentCallerJson r (.armed p n id cb)
  | queue (p task r) : Move h (.armed p task.call task.callId task.eventCb) (.startTask p task) r
      (.returning p task.call task.callId)
  | returned' (p n id r) : Move h (.returning p n id) (.returned n (h.pending id)) r .outside
  | tell' (p task q m doc r) :
      Move h (.working p task) (.setCallCaller q m doc) r (.working p task)
  | list' (p task q r) : Move h (.working p task) (.getMethods q) r (.working p task)
  | terminate (p task r) : Move h (.working p task) .terminate r .terminated
  | dead (p r) : Move h .terminated (.finishTask p) r .outside
  | dispatch' (p task m f d r) : Move h (.working p task) (.dispatch p m f d) r (.working p task)
  | complete (p task l v r) : task.eventCb = some l →
      Move h (.working p task) (.eventCb l task.call task.callId v) r (.completed p task.call)
  | finish (p task r) : task.eventCb = none →
      Move h (.working p task) (.finishTask p) r .outside
  | finish' (p n r) : Move h (.completed p n) (.finishTask p) r .outside

theorem next_move {h : GlueHost} {κ κ' : DeferredPhase} {a : GlueAction} {r : a.Ans}
    (hn : next h κ a r = some κ') : Move h κ a r κ' := by
  unfold next at hn
  split at hn
  case h_24 => cases hn
  case h_9 =>
    obtain ⟨hm, he⟩ := Option.ite_none_right_eq_some.1 hn
    obtain rfl := Option.some.inj he
    exact .dispatch _ _ _ _ _ _ _ hm
  case h_10 | h_19 | h_22 =>
    obtain ⟨rfl, he⟩ := Option.ite_none_right_eq_some.1 hn
    obtain rfl := Option.some.inj he
    constructor
  case h_11 | h_12 =>
    obtain ⟨⟨rfl, rfl⟩, he⟩ := Option.ite_none_right_eq_some.1 hn
    obtain rfl := Option.some.inj he
    constructor
  case h_14 =>
    obtain ⟨⟨rfl, rfl, rfl, rfl⟩, he⟩ := Option.ite_none_right_eq_some.1 hn
    obtain rfl := Option.some.inj he
    constructor
  case h_15 =>
    obtain ⟨⟨rfl, rfl, rfl⟩, he⟩ := Option.ite_none_right_eq_some.1 hn
    obtain rfl := Option.some.inj he
    exact .returned' ..
  case h_20 =>
    obtain ⟨⟨hl, rfl, rfl⟩, he⟩ := Option.ite_none_right_eq_some.1 hn
    obtain rfl := Option.some.inj he
    exact .complete _ _ _ _ _ hl
  case h_21 =>
    obtain ⟨⟨rfl, hl⟩, he⟩ := Option.ite_none_right_eq_some.1 hn
    obtain rfl := Option.some.inj he
    exact .finish _ _ _ hl
  all_goals
    obtain rfl := Option.some.inj hn
    constructor

def mayReturn : DeferredPhase → Prop
  | .outside | .direct _ _ => True
  | _ => False

end DeferredPhase

open DeferredPhase

section
variable {h : GlueHost} {p n : Nat}

theorem currentCallerJson_keeps {κ : DeferredPhase}
    (hκ : ∀ r, next h κ .invokeCurrentCallerJson r = some κ) :
    Follows (next h) (fun _ κ' => κ' = κ) (currentCallerJson h p) κ := by
  unfold currentCallerJson
  split
  · rfl
  · split
    · intro caller
      refine ⟨_, hκ caller, ?_⟩
      cases caller with
      | none => rfl
      | some caller =>
        simp only [Prog.bind]
        split <;> rfl
    · rfl

theorem callMethodSingle_keeps (hm : (h.provider p).multi = false) (methodName : String)
    (args : List QVariant) :
    Follows (next h) (fun _ κ => κ = .direct p n) (callMethodSingle h p n methodName args)
      (.direct p n) := by
  have hreply (result : Option (List UInt8)) : Follows (next h) (fun _ κ => κ = .direct p n)
      (singleReply h p methodName args result) (.direct p n) :=
    singleReply_follows (fun _ => rfl) methodName args result
  unfold callMethodSingle
  split
  · rfl
  · split
    · apply follows_bind (p := currentCallerJson h p)
      apply (currentCallerJson_keeps fun _ => rfl).mono
      rintro doc κ rfl
      intro _
      refine ⟨_, rfl, ?_⟩
      intro result
      refine ⟨_, if_pos hm, ?_⟩
      intro _
      exact ⟨_, rfl, hreply result⟩
    · intro result
      exact ⟨_, if_pos hm, hreply result⟩

/-- A deferred call: the id is drawn first, and returned last. -/
theorem callMethodMulti_defers {methodName : String} (hl : methodName ≠ "lidl")
    (args : List QVariant) :
    Follows (next h) (fun reply κ => ∃ callId, reply = .ok (h.pending callId) ∧
        κ = .returning p n callId) (callMethodMulti h p n methodName args) (.entered p n) := by
  unfold callMethodMulti
  rw [if_neg hl]
  intro value
  refine ⟨_, if_pos ⟨rfl, rfl⟩, ?_⟩
  intro eventCb
  refine ⟨_, if_pos ⟨rfl, rfl⟩, ?_⟩
  apply follows_bind (p := currentCallerJson h p)
  apply (currentCallerJson_keeps fun _ => rfl).mono
  rintro doc κ rfl
  intro _
  exact ⟨_, if_pos ⟨rfl, rfl, rfl, rfl⟩, _, rfl, rfl⟩

theorem callMethod_direct {methodName : String}
    (hd : ((h.provider p).multi && methodName ≠ "lidl") = false) (args : List QVariant) :
    Follows (next h) (fun _ κ => κ = .direct p n) (callMethod h p n methodName args)
      (.direct p n) := by
  unfold callMethod
  split
  next hm =>
    have hl : methodName = "lidl" := by simpa [hm] using hd
    simp only [callMethodMulti, if_pos hl]
    rfl
  next hm => exact callMethodSingle_keeps (Bool.eq_false_iff.2 hm) methodName args

theorem receive_keeps (methodName : String) (args : List QVariant) :
    Follows (next h) (fun _ κ => κ.mayReturn) (receive h p methodName args) .outside := by
  intro n
  refine ⟨_, rfl, ?_⟩
  apply follows_bind (p := callMethod h p n methodName args)
  cases hd : (h.provider p).multi && methodName ≠ "lidl" with
  | false =>
    apply (callMethod_direct hd args).mono
    rintro reply κ rfl
    cases reply with
    | error => trivial
    | ok value => exact fun _ => ⟨_, if_pos rfl, trivial⟩
  | true =>
    obtain ⟨hm, hl⟩ := Bool.and_eq_true_iff.1 hd
    have hcall : callMethod h p n methodName args = callMethodMulti h p n methodName args :=
      if_pos hm
    rw [hcall]
    apply (callMethodMulti_defers (of_decide_eq_true hl) args).mono
    rintro reply κ ⟨callId, rfl, rfl⟩
    exact fun _ => ⟨_, if_pos ⟨rfl, rfl, rfl⟩, trivial⟩

theorem deliver_keeps (scope : Option CallerDoc) (methodName : String)
    (args : List QVariant) :
    Follows (next h) (fun _ κ => κ.mayReturn) (deliver h p scope methodName args)
      .outside := by
  intro hidden
  refine ⟨_, rfl, ?_⟩
  apply follows_bind (p := receive h p methodName args)
  apply (receive_keeps methodName args).mono
  intro _ κ hκ
  cases κ with
  | outside | direct => exact fun _ => ⟨_, rfl, trivial⟩
  | _ => cases hκ

theorem runTask_keeps (task : GlueTask) :
    Follows (next h) (fun _ κ => κ.mayReturn) (runTask h p task) (.working p task) := by
  have hdispatch : Follows (next h) (fun _ κ => κ = .working p task) (workerDispatch h p task)
      (.working p task) := by
    unfold workerDispatch
    split
    · intro _
      refine ⟨_, rfl, ?_⟩
      intro result
      refine ⟨_, if_pos rfl, ?_⟩
      intro _
      exact ⟨_, rfl, rfl⟩
    · intro result
      exact ⟨_, if_pos rfl, rfl⟩
  apply follows_bind (p := workerDispatch h p task)
  apply hdispatch.mono
  rintro result κ rfl
  apply follows_bind (p := workerReply h p task result)
  apply (workerReply_follows (fun _ => rfl) task result).mono
  rintro value κ rfl
  apply follows_bind (p := complete task value)
  cases value with
  | error =>
    intro _
    refine ⟨_, rfl, ?_⟩
    intro _
    exact ⟨_, rfl, trivial⟩
  | ok value =>
    cases hl : task.eventCb with
    | some listener =>
      simp only [complete, hl]
      intro _
      refine ⟨_, if_pos ⟨hl, rfl, rfl⟩, ?_⟩
      intro _
      exact ⟨_, if_pos rfl, trivial⟩
    | none =>
      simp only [complete, hl]
      intro _
      exact ⟨_, if_pos ⟨rfl, hl⟩, trivial⟩

end

end LogosPluginQt
