import LogosPluginQt.GlueReply
import LogosPluginQt.GlueRuntime
import LogosPluginQt.Recording

namespace LogosPluginQt
open Interleaving Glue
set_option autoImplicit true

structure GlueRequest where
  provider : Nat
  methodName : String
  args : List QVariant

structure GlueDispatch where
  call : Nat
  provider : Nat
  method : String
  dumped : String
  answer : Option (List UInt8)

/-- What is written down of calls: the one that is coming in on a thread, what each call asks
for, and every dispatch. -/
structure AnswerRecord where
  arriving : Nat → Option GlueRequest := fun _ => none
  requests : Nat → Option GlueRequest := fun _ => none
  dispatches : List GlueDispatch := []

namespace AnswerRecord

def exec (t : Nat) : (a : GlueAction) → a.Ans → AnswerRecord → AnswerRecord
  | .enterCall _ _, n, g => { g with requests := Function.update g.requests n (g.arriving t) }
  | .dispatch p n method dumped, answer, g =>
    { g with dispatches := ⟨n, p, method, dumped, answer⟩ :: g.dispatches }
  | _, _, g => g

def arrive (g : AnswerRecord) (t : Nat) (r : GlueRequest) : AnswerRecord :=
  { g with arriving := Function.update g.arriving t (some r) }

inductive Enter (h : GlueHost) (t : Nat) : GlueWorld × AnswerRecord → Option GlueAction →
    GlueProg Unit → GlueWorld × AnswerRecord → Prop where
  | receive {w : GlueWorld} {g : AnswerRecord} {within : Option GlueAction} (r : GlueRequest) :
      (∀ a ∈ within, a.leavesGlue = true) →
      Enter h t (w, g) within (receive h r.provider r.methodName r.args) (w, g.arrive t r)
  | deliver {w : GlueWorld} {g : AnswerRecord} {within : Option GlueAction} (r : GlueRequest)
      (scope : Option CallerDoc) : (∀ a ∈ within, a.leavesGlue = true) →
      Enter h t (w, g) within (deliver h r.provider scope r.methodName r.args) (w, g.arrive t r)
  | setEventListener {w : GlueWorld} {g : AnswerRecord} {within : Option GlueAction}
      (p listener : Nat) : (∀ a ∈ within, a.leavesGlue = true) →
      Enter h t (w, g) within (perform (.setEventListener p listener)) (w, g)
  | work {w : GlueWorld} {g : AnswerRecord} (p : Nat) (before after : List GlueTask)
      {task : GlueTask} : w.queue p = before ++ task :: after →
      (w.busy p).length < h.workers p →
      Enter h t (w, g) none (runTask h p task) (w.takeTask p t (before ++ after), g)

end AnswerRecord

def answerRecorder (h : GlueHost) : Recorder (glueSystem h) AnswerRecord where
  exec := AnswerRecord.exec
  enter := AnswerRecord.Enter h
  entered := by
    intro t s within prog s' he
    cases he with
    | receive r ha => exact .receive _ _ _ ha
    | deliver r scope ha => exact .deliver _ scope _ _ ha
    | setEventListener p listener ha => exact .setEventListener p listener ha
    | work p before after hq hb => exact .work p before after hq hb
  enters := by
    intro t w within prog w' he g
    cases he with
    | receive p methodName args ha => exact ⟨_, .receive ⟨p, methodName, args⟩ ha⟩
    | deliver p scope methodName args ha => exact ⟨_, .deliver ⟨p, methodName, args⟩ scope ha⟩
    | setEventListener p listener ha => exact ⟨g, .setEventListener p listener ha⟩
    | work p before after hq hb => exact ⟨g, .work p before after hq hb⟩

namespace GlueAction

def silent : GlueAction → Bool
  | .openScope _ | .closeScope _ | .setEventListener _ _ | .invokeCurrentCallerJson
  | .setCallCaller _ _ _ | .getMethods _ | .fetchAdd _ _ | .eventCallback _ _
  | .finishTask _ => true
  | _ => false

end GlueAction

inductive AnswerPhase where
  | outside
  | arriving (r : GlueRequest)
  | serving (n : Nat) (r : GlueRequest)
  | answered (n : Nat) (r : GlueRequest) (answer : Option (List UInt8))
  | handed (n : Nat) (r : GlueRequest)
  | working (p : Nat) (task : GlueTask)
  | replying (p : Nat) (task : GlueTask) (answer : Option (List UInt8))

section
variable (h : GlueHost)

def GlueRequest.Makes (n : Nat) (r : GlueRequest) (task : GlueTask) : Prop :=
  ∃ callId eventCb callerJson,
    task = makeTask h r.provider n r.methodName r.args callId eventCb callerJson

namespace AnswerPhase

def Waiting : AnswerPhase → Prop
  | .arriving _ => False
  | _ => True

inductive Move : AnswerPhase → (a : GlueAction) → a.Ans → AnswerPhase → Prop
  | enter (r d n) : Move (.arriving r) (.enterCall r.provider d) n (.serving n r)
  | dispatch (n r answer) : (h.provider r.provider).multi = false → r.methodName ≠ "lidl" →
      Move (.serving n r) (.dispatch r.provider n r.methodName (dumpArgs h r.args)) answer
        (.answered n r answer)
  | queue (n r task x) : (h.provider r.provider).multi = true → r.methodName ≠ "lidl" →
      r.Makes h n task → Move (.serving n r) (.startTask r.provider task) x (.handed n r)
  | builtIn (n r x) : r.methodName = "lidl" →
      Move (.serving n r) (.returned n (builtInLidl h r.provider r.args)) x .outside
  | returned (n r answer v x) :
      (singleReply h r.provider r.methodName r.args answer).MayReturn (.ok v) →
      Move (.answered n r answer) (.returned n v) x .outside
  | pending (n r callId x) : Move (.handed n r) (.returned n (h.pending callId)) x .outside
  | work (p task answer) :
      Move (.working p task) (.dispatch p task.call task.method task.dumped) answer
        (.replying p task answer)
  | complete (p task answer l callId v x) : (workerReply h p task answer).MayReturn (.ok v) →
      Move (.replying p task answer) (.eventCb l task.call callId v) x .outside
  | terminate (p task answer x) : Move (.replying p task answer) .terminate x .outside

open Classical in
noncomputable def next (κ : AnswerPhase) (a : GlueAction) (r : a.Ans) : Option AnswerPhase :=
  if a.silent then if κ.Waiting ∨ a.leavesGlue = false then some κ else none
  else if hm : ∃ κ', Move h κ a r κ' then some hm.choose else none

variable {h}

theorem Move.unique {κ κ₁ κ₂ : AnswerPhase} {a : GlueAction} {r : a.Ans}
    (h₁ : Move h κ a r κ₁) (h₂ : Move h κ a r κ₂) : κ₁ = κ₂ := by
  cases h₁ <;> cases h₂ <;> rfl

theorem Move.loud {κ κ' : AnswerPhase} {a : GlueAction} {r : a.Ans} (hm : Move h κ a r κ') :
    a.silent = false := by
  cases hm <;> rfl

theorem next_silent {κ : AnswerPhase} {a : GlueAction} (ha : a.silent = true)
    (hκ : κ.Waiting ∨ a.leavesGlue = false) (r : a.Ans) : next h κ a r = some κ := by
  rw [next, if_pos ha, if_pos hκ]

theorem next_move {κ κ' : AnswerPhase} {a : GlueAction} {r : a.Ans} (hm : Move h κ a r κ') :
    next h κ a r = some κ' := by
  have hex : ∃ κ', Move h κ a r κ' := ⟨κ', hm⟩
  rw [next, if_neg (by rw [hm.loud]; exact Bool.false_ne_true), dif_pos hex]
  exact congrArg some (hex.choose_spec.unique hm)

end AnswerPhase

end

open AnswerPhase

section
variable {h : GlueHost}

theorem follows_silent {α : Type} {post : α → AnswerPhase → Prop} {κ : AnswerPhase}
    {a : GlueAction} {rest : a.Ans → GlueProg α} (ha : a.silent = true)
    (hκ : κ.Waiting ∨ a.leavesGlue = false) (hrest : ∀ r, Follows (next h) post (rest r) κ) :
    Follows (next h) post (.act a rest) κ :=
  fun r => ⟨κ, next_silent ha hκ r, hrest r⟩

theorem follows_move {α : Type} {post : α → AnswerPhase → Prop} {κ : AnswerPhase}
    {a : GlueAction} {rest : a.Ans → GlueProg α}
    (hrest : ∀ r, ∃ κ', Move h κ a r κ' ∧ Follows (next h) post (rest r) κ') :
    Follows (next h) post (.act a rest) κ := by
  intro r
  obtain ⟨κ', hm, hr⟩ := hrest r
  exact ⟨κ', next_move hm, hr⟩

theorem currentCallerJson_silent (p : Nat) {κ : AnswerPhase} (hκ : κ.Waiting) :
    Follows (next h) (fun _ κ' => κ' = κ) (currentCallerJson h p) κ := by
  unfold currentCallerJson
  split
  · rfl
  · split
    · refine follows_silent rfl (.inl hκ) fun caller => ?_
      cases caller with
      | none => rfl
      | some caller =>
        simp only [Prog.bind]
        split <;> rfl
    · rfl

/-- What is left of a call, from the reply of its method on, gives the caller its answer. -/
def Gives (h : GlueHost) (n : Nat) (reply : Except ReplyError QVariant) (κ : AnswerPhase) :
    Prop :=
  κ.Waiting ∧ ∀ v, reply = .ok v → Move h κ (.returned n v) () .outside

theorem singleReply_gives (n : Nat) (r : GlueRequest) (answer : Option (List UInt8)) :
    Follows (next h) (Gives h n) (singleReply h r.provider r.methodName r.args answer)
      (.answered n r answer) := by
  have hκ : (AnswerPhase.answered n r answer).Waiting := trivial
  apply (singleReply_follows (fun x => next_silent rfl (.inl hκ) x) r.methodName r.args
    answer).mayReturn.mono
  rintro reply κ ⟨rfl, hreply⟩
  refine ⟨hκ, ?_⟩
  rintro v rfl
  exact .returned n r answer v () hreply

theorem callMethodSingle_gives (n : Nat) (r : GlueRequest)
    (hm : (h.provider r.provider).multi = false) :
    Follows (next h) (Gives h n) (callMethodSingle h r.provider n r.methodName r.args)
      (.serving n r) := by
  have hκ : (AnswerPhase.serving n r).Waiting := trivial
  unfold callMethodSingle
  split
  next hl =>
    refine ⟨trivial, ?_⟩
    rintro v ⟨⟩
    exact .builtIn n r () hl
  next hl =>
    split
    · apply follows_bind (p := currentCallerJson h r.provider)
      apply (currentCallerJson_silent r.provider hκ).mono
      rintro doc κ rfl
      refine follows_silent rfl (.inl trivial) fun _ => follows_move fun answer => ?_
      refine ⟨_, .dispatch n r answer hm hl, follows_silent rfl (.inl trivial) fun _ => ?_⟩
      exact singleReply_gives n r answer
    · refine follows_move fun answer => ⟨_, .dispatch n r answer hm hl, ?_⟩
      exact singleReply_gives n r answer

theorem callMethodMulti_gives (n : Nat) (r : GlueRequest)
    (hm : (h.provider r.provider).multi = true) :
    Follows (next h) (Gives h n) (callMethodMulti h r.provider n r.methodName r.args)
      (.serving n r) := by
  have hκ : (AnswerPhase.serving n r).Waiting := trivial
  unfold callMethodMulti
  split
  next hl =>
    refine ⟨trivial, ?_⟩
    rintro v ⟨⟩
    exact .builtIn n r () hl
  next hl =>
    refine follows_silent rfl (.inl trivial) fun value => ?_
    refine follows_silent rfl (.inl trivial) fun eventCb => ?_
    apply follows_bind (p := currentCallerJson h r.provider)
    apply (currentCallerJson_silent r.provider hκ).mono
    rintro doc κ rfl
    refine follows_move fun x => ⟨_, .queue n r _ x hm hl ⟨_, _, _, rfl⟩, ?_⟩
    refine ⟨trivial, ?_⟩
    rintro v ⟨⟩
    exact .pending n r _ ()

theorem receive_answers (r : GlueRequest) :
    Follows (next h) (fun _ κ => κ.Waiting) (receive h r.provider r.methodName r.args)
      (.arriving r) := by
  refine follows_move fun n => ⟨_, .enter r _ n, ?_⟩
  apply follows_bind (p := callMethod h r.provider n r.methodName r.args)
  have hgives : Follows (next h) (Gives h n) (callMethod h r.provider n r.methodName r.args)
      (.serving n r) := by
    unfold callMethod
    split
    next hm => exact callMethodMulti_gives n r hm
    next hm => exact callMethodSingle_gives n r (Bool.eq_false_iff.2 hm)
  apply hgives.mono
  rintro reply κ ⟨hκ, hreply⟩
  cases reply with
  | error => exact hκ
  | ok v => exact follows_move fun _ => ⟨_, hreply v rfl, trivial⟩

theorem deliver_answers (r : GlueRequest) (scope : Option CallerDoc) :
    Follows (next h) (fun _ κ => κ.Waiting) (deliver h r.provider scope r.methodName r.args)
      (.arriving r) := by
  refine follows_silent rfl (.inr rfl) fun hidden => ?_
  apply follows_bind (p := receive h r.provider r.methodName r.args)
  apply (receive_answers r).mono
  intro _ κ hκ
  exact follows_silent rfl (.inl hκ) fun _ => hκ

theorem runTask_answers (p : Nat) (task : GlueTask) :
    Follows (next h) (fun _ κ => κ.Waiting) (runTask h p task) (.working p task) := by
  have hdispatch : Follows (next h) (fun answer κ => κ = .replying p task answer)
      (workerDispatch h p task) (.working p task) := by
    unfold workerDispatch
    split
    · refine follows_silent rfl (.inl trivial) fun _ => follows_move fun answer => ?_
      exact ⟨_, .work p task answer, follows_silent rfl (.inl trivial) fun _ => rfl⟩
    · exact follows_move fun answer => ⟨_, .work p task answer, rfl⟩
  apply follows_bind (p := workerDispatch h p task)
  apply hdispatch.mono
  rintro answer κ rfl
  have hκ : (AnswerPhase.replying p task answer).Waiting := trivial
  apply follows_bind (p := workerReply h p task answer)
  apply (workerReply_follows (fun x => next_silent rfl (.inl hκ) x) task answer).mayReturn.mono
  rintro reply κ ⟨rfl, hreply⟩
  apply follows_bind (p := complete task reply)
  cases reply with
  | error =>
    refine follows_move fun x => ⟨_, .terminate p task answer x, ?_⟩
    exact follows_silent rfl (.inl trivial) fun _ => trivial
  | ok v =>
    cases hl : task.eventCb with
    | some listener =>
      simp only [complete, hl]
      have hm := Move.complete p task answer listener task.callId v () hreply
      refine follows_move fun _ => ⟨_, hm, ?_⟩
      exact follows_silent rfl (.inl trivial) fun _ => trivial
    | none =>
      simp only [complete, hl]
      exact follows_silent rfl (.inl hκ) fun _ => trivial

end

end LogosPluginQt
