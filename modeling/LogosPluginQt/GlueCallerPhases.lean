import LogosPluginQt.GlueRuntime

namespace LogosPluginQt
open Interleaving Glue GlueWorld
set_option autoImplicit true

inductive CallerPhase where
  | outside
  | entered (p n : Nat)
  | pulled (p n : Nat) (doc : String)
  | pushed (p n : Nat) (doc : String)
  | dispatched (p n : Nat) (doc : String)

namespace CallerPhase

def answered (h : GlueHost) : Option String → String
  | some caller => if caller ≠ "" then caller else h.callerUnknownJson.text
  | none => h.callerUnknownJson.text

/-- The phase a call starts in: without a `LogosAPI` there is nothing to pull. -/
def start (h : GlueHost) (p n : Nat) : CallerPhase :=
  if (h.provider p).hasLogosAPI then .entered p n else .pulled p n h.callerUnknownJson.text

def next (h : GlueHost) : CallerPhase → (a : GlueAction) → a.Ans → Option CallerPhase
  | .outside, .openScope _, _ | .outside, .closeScope _, _ | .outside, .returned _ _, _
  | .outside, .setEventListener _ _, _ | .outside, .getMethods _, _
  | .outside, .eventCb _ _ _ _, _ | .outside, .finishTask _, _
  | .outside, .terminate, _ => some .outside
  | .outside, .enterCall p _, n => some (start h p n)
  | .entered p n, .invokeCurrentCallerJson, caller => some (.pulled p n (answered h caller))
  | .entered p n, .fetchAdd _ _, _ | .entered p n, .eventCallback _ _, _ => some (.entered p n)
  | .entered _ _, .returned _ _, _ | .pulled _ _ _, .returned _ _, _ => some .outside
  | .pulled p n doc, .fetchAdd _ _, _ | .pulled p n doc, .eventCallback _ _, _ =>
    some (.pulled p n doc)
  | .pulled p n doc, .setCallCaller q m (some doc'), _ =>
    if q = p ∧ m = n ∧ doc' = doc then some (.pushed p n doc) else none
  | .pulled p n doc, .startTask q task, _ =>
    if q = p ∧ task.call = n ∧ task.callerJson = doc then some .outside else none
  | .pushed p n doc, .dispatch q m _ _, _ =>
    if q = p ∧ m = n then some (.dispatched p n doc) else none
  | .dispatched p n _, .setCallCaller q m none, _ =>
    if q = p ∧ m = n then some .outside else none
  | _, _, _ => none

def Quiet : CallerPhase → Prop
  | .pushed _ _ _ | .dispatched _ _ _ => False
  | _ => True

inductive Move (h : GlueHost) : CallerPhase → (a : GlueAction) → a.Ans → CallerPhase → Prop
  | openScope (doc r) : Move h .outside (.openScope doc) r .outside
  | closeScope (doc r) : Move h .outside (.closeScope doc) r .outside
  | returned (κ n v r) : κ.Quiet → Move h κ (.returned n v) r .outside
  | listen (p l r) : Move h .outside (.setEventListener p l) r .outside
  | list (p r) : Move h .outside (.getMethods p) r .outside
  | complete (l n id v r) : Move h .outside (.eventCb l n id v) r .outside
  | finish (p r) : Move h .outside (.finishTask p) r .outside
  | terminate (r) : Move h .outside .terminate r .outside
  | enter (p d n) : Move h .outside (.enterCall p d) n (start h p n)
  | pull (p n r) : Move h (.entered p n) .invokeCurrentCallerJson r (.pulled p n (answered h r))
  | draw (κ p n r) : κ.Quiet → Move h κ (.fetchAdd p n) r κ
  | copy (κ p n r) : κ.Quiet → Move h κ (.eventCallback p n) r κ
  | push (p n doc r) : Move h (.pulled p n doc) (.setCallCaller p n (some doc)) r (.pushed p n doc)
  | queue (p task r) :
      Move h (.pulled p task.call task.callerJson) (.startTask p task) r .outside
  | dispatch (p n doc m d r) : Move h (.pushed p n doc) (.dispatch p n m d) r (.dispatched p n doc)
  | pop (p n doc r) : Move h (.dispatched p n doc) (.setCallCaller p n none) r .outside

theorem next_move {h : GlueHost} {κ κ' : CallerPhase} {a : GlueAction} {r : a.Ans}
    (hn : next h κ a r = some κ') : Move h κ a r κ' := by
  unfold next at hn
  split at hn
  case h_17 =>
    obtain ⟨⟨rfl, rfl, rfl⟩, he⟩ := Option.ite_none_right_eq_some.1 hn
    obtain rfl := Option.some.inj he
    exact .push ..
  case h_18 =>
    obtain ⟨⟨rfl, rfl, rfl⟩, he⟩ := Option.ite_none_right_eq_some.1 hn
    obtain rfl := Option.some.inj he
    exact .queue ..
  case h_19 =>
    obtain ⟨⟨rfl, rfl⟩, he⟩ := Option.ite_none_right_eq_some.1 hn
    obtain rfl := Option.some.inj he
    exact .dispatch ..
  case h_20 =>
    obtain ⟨⟨rfl, rfl⟩, he⟩ := Option.ite_none_right_eq_some.1 hn
    obtain rfl := Option.some.inj he
    exact .pop ..
  case h_21 => cases hn
  all_goals
    obtain rfl := Option.some.inj hn
    constructor
  all_goals trivial

end CallerPhase
open CallerPhase

section
variable {h : GlueHost} {p n : Nat}

theorem start_draws (h : GlueHost) (p n : Nat) :
    (∀ r, next h (start h p n) (.fetchAdd p n) r = some (start h p n)) ∧
      ∀ r, next h (start h p n) (.eventCallback p n) r = some (start h p n) := by
  unfold start
  split <;> exact ⟨fun _ => rfl, fun _ => rfl⟩

theorem start_returns (v : QVariant) (r) :
    next h (start h p n) (.returned n v) r = some .outside := by
  unfold start
  split <;> rfl

theorem currentCallerJson_follows (hg : h.callerGuard = true) :
    Follows (next h) (fun doc κ => κ = .pulled p n doc) (currentCallerJson h p)
      (start h p n) := by
  unfold currentCallerJson start
  simp only [hg, Bool.not_true, Bool.false_eq_true, ↓reduceIte]
  split
  · intro caller
    refine ⟨_, rfl, ?_⟩
    cases caller with
    | none => rfl
    | some caller =>
      simp only [Prog.bind, answered]
      split <;> rfl
  · rfl

/-- Where a call may be when it has its reply: `lidl()` is answered before a pull. -/
def Answered (h : GlueHost) (p n : Nat) (reply : Except ReplyError QVariant)
    (κ : CallerPhase) : Prop :=
  κ = .outside ∨ κ = start h p n ∧ ∃ value, reply = .ok value

theorem callMethodSingle_follows (hg : h.callerGuard = true) (methodName : String)
    (args : List QVariant) :
    Follows (next h) (Answered h p n) (callMethodSingle h p n methodName args)
      (start h p n) := by
  unfold callMethodSingle
  split
  · exact .inr ⟨rfl, _, rfl⟩
  · apply follows_bind (p := currentCallerJson h p)
    apply (currentCallerJson_follows hg).mono
    rintro doc κ rfl
    intro _
    refine ⟨_, if_pos ⟨rfl, rfl, rfl⟩, ?_⟩
    intro result
    refine ⟨_, if_pos ⟨rfl, rfl⟩, ?_⟩
    intro _
    refine ⟨_, if_pos ⟨rfl, rfl⟩, ?_⟩
    have hreply : Follows (next h) (fun _ κ => κ = .outside)
        (singleReply h p methodName args result) .outside :=
      singleReply_follows (fun _ => rfl) methodName args result
    exact hreply.mono fun _ _ hκ => .inl hκ

theorem callMethodMulti_follows (hg : h.callerGuard = true) (methodName : String)
    (args : List QVariant) :
    Follows (next h) (Answered h p n) (callMethodMulti h p n methodName args)
      (start h p n) := by
  unfold callMethodMulti
  split
  · exact .inr ⟨rfl, _, rfl⟩
  · intro value
    refine ⟨_, (start_draws h p n).1 value, ?_⟩
    intro listener
    refine ⟨_, (start_draws h p n).2 listener, ?_⟩
    apply follows_bind (p := currentCallerJson h p)
    apply (currentCallerJson_follows hg).mono
    rintro doc κ rfl
    intro _
    exact ⟨_, if_pos ⟨rfl, rfl, rfl⟩, .inl rfl⟩

theorem receive_follows (hg : h.callerGuard = true) (methodName : String)
    (args : List QVariant) :
    Follows (next h) (fun _ κ => κ = .outside) (receive h p methodName args) .outside := by
  intro n
  refine ⟨_, rfl, ?_⟩
  have hcall : Follows (next h) (Answered h p n) (callMethod h p n methodName args)
      (start h p n) := by
    unfold callMethod
    split
    · exact callMethodMulti_follows hg methodName args
    · exact callMethodSingle_follows hg methodName args
  apply follows_bind (p := callMethod h p n methodName args)
  apply hcall.mono
  rintro reply κ (rfl | ⟨rfl, value, rfl⟩)
  · cases reply with
    | error => rfl
    | ok value => exact fun _ => ⟨_, rfl, rfl⟩
  · exact fun _ => ⟨_, start_returns value _, rfl⟩

theorem deliver_follows (hg : h.callerGuard = true) (scope : Option CallerDoc)
    (methodName : String) (args : List QVariant) :
    Follows (next h) (fun _ κ => κ = .outside) (deliver h p scope methodName args)
      .outside := by
  intro hidden
  refine ⟨_, rfl, ?_⟩
  apply follows_bind (p := receive h p methodName args)
  apply (receive_follows hg methodName args).mono
  rintro _ κ rfl
  exact fun _ => ⟨_, rfl, rfl⟩

theorem runTask_follows (hg : h.callerGuard = true) (task : GlueTask) :
    Follows (next h) (fun _ κ => κ = .outside) (runTask h p task)
      (.pulled p task.call task.callerJson) := by
  have hdispatch : Follows (next h) (fun _ κ => κ = .outside) (workerDispatch h p task)
      (.pulled p task.call task.callerJson) := by
    unfold workerDispatch
    simp only [hg, ↓reduceIte]
    intro _
    refine ⟨_, if_pos ⟨rfl, rfl, rfl⟩, ?_⟩
    intro result
    refine ⟨_, if_pos ⟨rfl, rfl⟩, ?_⟩
    intro _
    exact ⟨_, if_pos ⟨rfl, rfl⟩, rfl⟩
  apply follows_bind (p := workerDispatch h p task)
  apply hdispatch.mono
  rintro result κ rfl
  apply follows_bind (p := workerReply h p task result)
  apply (workerReply_follows (fun _ => rfl) task result).mono
  rintro value κ rfl
  apply follows_bind (p := complete task value)
  have hcomplete : Follows (next h) (fun _ κ => κ = .outside) (complete task value)
      .outside := by
    unfold complete
    split
    · exact fun _ => ⟨_, rfl, rfl⟩
    · split
      · exact fun _ => ⟨_, rfl, rfl⟩
      · rfl
  apply hcomplete.mono
  rintro _ κ rfl
  exact fun _ => ⟨_, rfl, rfl⟩

end

end LogosPluginQt
