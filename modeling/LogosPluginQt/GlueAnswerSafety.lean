import LogosPluginQt.Draining
import LogosPluginQt.GlueAnswers
import Mathlib.Tactic.Abel

namespace LogosPluginQt
open Interleaving Glue GlueWorld AnswerPhase
set_option autoImplicit true

/-- The value is what reply handling makes of the module's answer to the call's own dispatch. -/
def Replied (h : GlueHost) (g : AnswerRecord) (n : Nat) (r : GlueRequest) (v : QVariant) :
    Prop :=
  ∃ d ∈ g.dispatches, d.call = n ∧
    (singleReply h r.provider r.methodName r.args d.answer).MayReturn (.ok v)

def MayAnswer (h : GlueHost) (g : AnswerRecord) (n : Nat) (r : GlueRequest) (v : QVariant) :
    Prop :=
  if r.methodName = "lidl" then v = builtInLidl h r.provider r.args
  else if (h.provider r.provider).multi then ∃ callId, v = h.pending callId
  else Replied h g n r v

def Carried (h : GlueHost) (g : AnswerRecord) (p : Nat) (task : GlueTask) : Prop :=
  ∃ r, g.requests task.call = some r ∧ r.provider = p ∧
    (h.provider p).multi = true ∧ r.methodName ≠ "lidl" ∧ r.Makes h task.call task

def GlueDispatch.For (h : GlueHost) (d : GlueDispatch) (r : GlueRequest) : Prop :=
  d.provider = r.provider ∧ d.method = r.methodName ∧ d.dumped = dumpArgs h r.args ∧
    r.methodName ≠ "lidl"

/-- No caller gets what is another's, whoever serves it and when. -/
structure OwnAnswers (h : GlueHost) (w : GlueWorld) (g : AnswerRecord) : Prop where
  dispatched : ∀ d ∈ g.dispatches, ∃ r, g.requests d.call = some r ∧ d.For h r
  returned : ∀ n v, (n, v) ∈ w.returned → ∃ r, g.requests n = some r ∧ MayAnswer h g n r v
  completed : ∀ e ∈ w.completions, ∃ r, g.requests e.call = some r ∧
    (h.provider r.provider).multi = true ∧ r.methodName ≠ "lidl" ∧
    Replied h g e.call r e.value

namespace AnswerPhase

def owns : AnswerPhase → Option Nat
  | .serving n _ => some n
  | .working _ task => some task.call
  | _ => none

def Holds (h : GlueHost) (g : AnswerRecord) : AnswerPhase → Prop
  | .outside | .arriving _ => True
  | .serving n r => g.requests n = some r
  | .answered n r answer => g.requests n = some r ∧ (h.provider r.provider).multi = false ∧
    r.methodName ≠ "lidl" ∧ ∃ d ∈ g.dispatches, d.call = n ∧ d.answer = answer
  | .handed n r => g.requests n = some r ∧ (h.provider r.provider).multi = true ∧
    r.methodName ≠ "lidl"
  | .working p task => Carried h g p task
  | .replying p task answer => Carried h g p task ∧
    ∃ d ∈ g.dispatches, d.call = task.call ∧ d.answer = answer

end AnswerPhase

structure AnswerRecord.Grows (g g' : AnswerRecord) : Prop where
  requests : ∀ n r, g.requests n = some r → g'.requests n = some r
  dispatches : ∀ d ∈ g.dispatches, d ∈ g'.dispatches

section
variable {h : GlueHost} {g g' : AnswerRecord} {n : Nat} {r : GlueRequest} {v : QVariant}

theorem AnswerRecord.Grows.refl (g : AnswerRecord) : g.Grows g := ⟨fun _ _ => id, fun _ => id⟩

theorem Replied.mono (hv : Replied h g n r v) (hg : g.Grows g') : Replied h g' n r v := by
  obtain ⟨d, hd, hv⟩ := hv
  exact ⟨d, hg.dispatches d hd, hv⟩

theorem MayAnswer.mono (hv : MayAnswer h g n r v) (hg : g.Grows g') : MayAnswer h g' n r v := by
  unfold MayAnswer at hv ⊢
  split
  next hl => rwa [if_pos hl] at hv
  next hl =>
    rw [if_neg hl] at hv
    split
    next hm => rwa [if_pos hm] at hv
    next hm =>
      rw [if_neg hm] at hv
      exact hv.mono hg

theorem Carried.mono {p : Nat} {task : GlueTask} (hc : Carried h g p task) (hg : g.Grows g') :
    Carried h g' p task := by
  obtain ⟨r, hr, hc⟩ := hc
  exact ⟨r, hg.requests _ r hr, hc⟩

theorem AnswerPhase.Holds.mono {κ : AnswerPhase} (hκ : κ.Holds h g) (hg : g.Grows g') :
    κ.Holds h g' := by
  have hd {n : Nat} {answer : Option (List UInt8)}
      (hd : ∃ d ∈ g.dispatches, d.call = n ∧ d.answer = answer) :
      ∃ d ∈ g'.dispatches, d.call = n ∧ d.answer = answer :=
    hd.imp fun d hd => ⟨hg.dispatches d hd.1, hd.2⟩
  cases κ with
  | outside | arriving => trivial
  | serving n r => exact hg.requests n r hκ
  | answered n r answer => exact ⟨hg.requests n r hκ.1, hκ.2.1, hκ.2.2.1, hd hκ.2.2.2⟩
  | handed n r => exact ⟨hg.requests n r hκ.1, hκ.2⟩
  | working p task => exact Carried.mono hκ hg
  | replying p task answer => exact ⟨hκ.1.mono hg, hd hκ.2⟩

theorem GlueRequest.Makes.call {task : GlueTask} (hmakes : r.Makes h n task) :
    task.call = n := by
  obtain ⟨_, _, _, rfl⟩ := hmakes
  rfl

theorem GlueRequest.Makes.for {p : Nat} {task : GlueTask} {answer : Option (List UInt8)}
    (hmakes : r.Makes h n task) (hp : r.provider = p) (hl : r.methodName ≠ "lidl") :
    (GlueDispatch.mk n p task.method task.dumped answer).For h r := by
  obtain ⟨_, _, _, rfl⟩ := hmakes
  exact ⟨hp.symm, rfl, rfl, hl⟩

/-- What a worker makes of an answer is what the call would have made of it at once. -/
theorem Carried.replied {p : Nat} {task : GlueTask} {answer : Option (List UInt8)}
    (hc : Carried h g p task)
    (hd : ∃ d ∈ g.dispatches, d.call = task.call ∧ d.answer = answer)
    (hv : (workerReply h p task answer).MayReturn (.ok v)) :
    ∃ r, g.requests task.call = some r ∧ (h.provider r.provider).multi = true ∧
      r.methodName ≠ "lidl" ∧ Replied h g task.call r v := by
  obtain ⟨r, hr, rfl, hm, hl, callId, eventCb, callerJson, htask⟩ := hc
  obtain ⟨d, hmem, hcall, rfl⟩ := hd
  refine ⟨r, hr, hm, hl, d, hmem, hcall, ?_⟩
  rwa [htask, workerReply_eq, ← singleReply_eq] at hv

end

/-- No call is in two hands, and none is in a hand before it is made. -/
def SoleOwner (M : Multiset (Option Nat)) (size : Nat) : Prop :=
  ∀ n, M.count (some n) ≤ if n < size then 1 else 0

section
variable {M M' : Multiset (Option Nat)} {size : Nat}

theorem SoleOwner.keep (hM : SoleOwner M size) (xs ys : Multiset (Option Nat))
    (he : M' + xs = M + ys) (hys : ∀ n, some n ∉ ys) : SoleOwner M' size := by
  intro n
  have hcount := congrArg (Multiset.count (some n)) he
  rw [Multiset.count_add, Multiset.count_add, Multiset.count_eq_zero.2 (hys n)] at hcount
  have hn := hM n
  omega

theorem SoleOwner.enter (hM : SoleOwner M size) (xs : Multiset (Option Nat))
    (he : M' + xs = M + {some size}) : SoleOwner M' (size + 1) := by
  intro n
  have hcount := congrArg (Multiset.count (some n)) he
  rw [Multiset.count_add, Multiset.count_add, Multiset.count_singleton] at hcount
  have hn := hM n
  simp only [Option.some.injEq] at hcount
  split at hcount <;> split at hn <;> split <;> omega

end

def handled (dispatches : List GlueDispatch) : Multiset (Option Nat) :=
  dispatches.map fun d => some d.call

theorem handled_cons (d : GlueDispatch) (dispatches : List GlueDispatch) :
    handled (d :: dispatches) = {some d.call} + handled dispatches := by
  rw [Multiset.singleton_add]
  rfl

/-- A call is in the hands of a frame, of a queued task or, once it is dispatched, of none. -/
def CallOwners (φ : Nat → List AnswerPhase) (queue : Nat → List GlueTask)
    (dispatches : List GlueDispatch) (size : Nat) : Prop :=
  ∃ M₁ M₂, Interleaving.Holds (fun _ => owns) φ M₁ ∧
    Interleaving.Holds (fun _ task => some task.call) queue M₂ ∧
    SoleOwner (M₁ + M₂ + handled dispatches) size

section
variable {φ : Nat → List AnswerPhase} {queue : Nat → List GlueTask}
  {dispatches : List GlueDispatch} {size t : Nat} {κ κ' : AnswerPhase} {rest : List AnswerPhase}

theorem none_only (n : Nat) : some n ∉ ({none} : Multiset (Option Nat)) :=
  fun hmem => Option.some_ne_none n (Multiset.mem_singleton.1 hmem)

theorem CallOwners.replace {M₁ : Multiset (Option Nat)}
    (h₁ : Interleaving.Holds (fun _ => owns) φ M₁) (hφ : φ t = κ :: rest) (κ' : AnswerPhase) :
    ∃ M₁', Interleaving.Holds (fun _ => owns) (Function.update φ t (κ' :: rest)) M₁' ∧
      M₁' + {κ.owns} = M₁ + {κ'.owns} :=
  h₁.replace [κ] [κ'] (.of_eq hφ) (.refl _)

theorem CallOwners.run (hO : CallOwners φ queue dispatches size) (hφ : φ t = κ :: rest)
    (hκ' : κ'.owns = none) :
    CallOwners (Function.update φ t (κ' :: rest)) queue dispatches size := by
  obtain ⟨M₁, M₂, h₁, h₂, hM⟩ := hO
  obtain ⟨M₁', h₁', he⟩ := replace h₁ hφ κ'
  refine ⟨M₁', M₂, h₁', h₂, hM.keep {κ.owns} {none} ?_ none_only⟩
  rw [hκ'] at he
  calc M₁' + M₂ + handled dispatches + {κ.owns}
    _ = (M₁' + {κ.owns}) + M₂ + handled dispatches := by abel
    _ = M₁ + M₂ + handled dispatches + {none} := by rw [he]; abel

theorem CallOwners.dispatch (hO : CallOwners φ queue dispatches size) (hφ : φ t = κ :: rest)
    {d : GlueDispatch} (hκ : κ.owns = some d.call) (hκ' : κ'.owns = none) :
    CallOwners (Function.update φ t (κ' :: rest)) queue (d :: dispatches) size := by
  obtain ⟨M₁, M₂, h₁, h₂, hM⟩ := hO
  obtain ⟨M₁', h₁', he⟩ := replace h₁ hφ κ'
  refine ⟨M₁', M₂, h₁', h₂, hM.keep 0 {none} ?_ none_only⟩
  rw [hκ, hκ'] at he
  rw [handled_cons]
  calc M₁' + M₂ + ({some d.call} + handled dispatches) + 0
    _ = (M₁' + {some d.call}) + M₂ + handled dispatches := by abel
    _ = M₁ + M₂ + handled dispatches + {none} := by rw [he]; abel

theorem CallOwners.start (hO : CallOwners φ queue dispatches size) (hφ : φ t = κ :: rest)
    {task : GlueTask} (hκ : κ.owns = some task.call) (hκ' : κ'.owns = none) (p : Nat) :
    CallOwners (Function.update φ t (κ' :: rest))
      (Function.update queue p (queue p ++ [task])) dispatches size := by
  obtain ⟨M₁, M₂, h₁, h₂, hM⟩ := hO
  obtain ⟨M₁', h₁', he⟩ := replace h₁ hφ κ'
  obtain ⟨M₂', h₂', he₂⟩ := h₂.replace (l := queue p ++ [task]) [] [task]
    (.refl _) List.perm_append_comm
  refine ⟨M₁', M₂', h₁', h₂', hM.keep 0 {none} ?_ none_only⟩
  rw [hκ, hκ'] at he
  have he₂' : M₂' = M₂ + {some task.call} := (add_zero M₂').symm.trans he₂
  calc M₁' + M₂' + handled dispatches + 0
    _ = (M₁' + {some task.call}) + M₂ + handled dispatches := by rw [he₂']; abel
    _ = M₁ + M₂ + handled dispatches + {none} := by rw [he]; abel

theorem CallOwners.enter (hO : CallOwners φ queue dispatches size) (hφ : φ t = κ :: rest)
    (hκ' : κ'.owns = some size) :
    CallOwners (Function.update φ t (κ' :: rest)) queue dispatches (size + 1) := by
  obtain ⟨M₁, M₂, h₁, h₂, hM⟩ := hO
  obtain ⟨M₁', h₁', he⟩ := replace h₁ hφ κ'
  refine ⟨M₁', M₂, h₁', h₂, hM.enter {κ.owns} ?_⟩
  rw [hκ'] at he
  calc M₁' + M₂ + handled dispatches + {κ.owns}
    _ = (M₁' + {κ.owns}) + M₂ + handled dispatches := by abel
    _ = M₁ + M₂ + handled dispatches + {some size} := by rw [he]; abel

theorem CallOwners.leave (hO : CallOwners φ queue dispatches size) (hφ : φ t = κ :: rest) :
    CallOwners (Function.update φ t rest) queue dispatches size := by
  obtain ⟨M₁, M₂, h₁, h₂, hM⟩ := hO
  obtain ⟨M₁', h₁', he⟩ := h₁.replace (l := rest) [κ] [] (.of_eq hφ) (.refl _)
  refine ⟨M₁', M₂, h₁', h₂, hM.keep {κ.owns} 0 ?_ fun _ => Multiset.notMem_zero _⟩
  have he' : M₁' + {κ.owns} = M₁ := he.trans (add_zero M₁)
  calc M₁' + M₂ + handled dispatches + {κ.owns}
    _ = (M₁' + {κ.owns}) + M₂ + handled dispatches := by abel
    _ = M₁ + M₂ + handled dispatches + 0 := by rw [he', add_zero]

theorem CallOwners.push (hO : CallOwners φ queue dispatches size) (t : Nat)
    (hκ : κ.owns = none) : CallOwners (Function.update φ t (κ :: φ t)) queue dispatches size := by
  obtain ⟨M₁, M₂, h₁, h₂, hM⟩ := hO
  obtain ⟨M₁', h₁', he⟩ := h₁.replace (l := κ :: φ t) [] [κ] (.refl _) (.refl _)
  refine ⟨M₁', M₂, h₁', h₂, hM.keep 0 {none} ?_ none_only⟩
  have he' : M₁' = M₁ + {none} := by rw [← hκ]; exact (add_zero M₁').symm.trans he
  rw [he']
  abel

theorem CallOwners.take (hO : CallOwners φ queue dispatches size) (t : Nat) {p : Nat}
    {before after : List GlueTask} {task : GlueTask} (hq : queue p = before ++ task :: after)
    (hκ : κ.owns = some task.call) :
    CallOwners (Function.update φ t (κ :: φ t)) (Function.update queue p (before ++ after))
      dispatches size := by
  obtain ⟨M₁, M₂, h₁, h₂, hM⟩ := hO
  obtain ⟨M₁', h₁', he⟩ := h₁.replace (l := κ :: φ t) [] [κ] (.refl _) (.refl _)
  obtain ⟨M₂', h₂', he₂⟩ := h₂.replace (l := before ++ after) [task] []
    (.trans (.of_eq hq) List.perm_middle) (.refl _)
  refine ⟨M₁', M₂', h₁', h₂', hM.keep 0 0 ?_ fun _ => Multiset.notMem_zero _⟩
  have he' : M₁' = M₁ + {some task.call} := by rw [← hκ]; exact (add_zero M₁').symm.trans he
  have he₂' : M₂' + {some task.call} = M₂ := he₂.trans (add_zero M₂)
  calc M₁' + M₂' + handled dispatches + 0
    _ = M₁ + (M₂' + {some task.call}) + handled dispatches := by rw [he']; abel
    _ = M₁ + M₂ + handled dispatches + 0 := by rw [he₂', add_zero]

end

/-- What the frames of all threads say of their calls; one that is coming in is on top. -/
structure AnswerFrames (h : GlueHost) (g : AnswerRecord) (φ : Nat → List AnswerPhase) :
    Prop where
  arriving : ∀ t r, .arriving r ∈ φ t → g.arriving t = some r
  below : ∀ t, ∀ κ ∈ (φ t).tail, κ.Waiting
  holds : ∀ t, ∀ κ ∈ φ t, κ.Holds h g

structure AnswerInvariant (h : GlueHost) (w : GlueWorld) (g : AnswerRecord)
    (φ : Nat → List AnswerPhase) : Prop where
  frames : AnswerFrames h g φ
  fresh : ∀ n, w.calls.length ≤ n → g.requests n = none
  queued : ∀ p, ∀ task ∈ w.queue p, Carried h g p task
  owners : CallOwners φ w.queue g.dispatches w.calls.length
  answered : OwnAnswers h w g

section
variable {h : GlueHost} {w w' : GlueWorld} {g g' : AnswerRecord} {t : Nat}
  {φ : Nat → List AnswerPhase} {κ κ' : AnswerPhase} {rest : List AnswerPhase}

theorem AnswerFrames.top (hF : AnswerFrames h g φ) (hφ : φ t = κ :: rest) :
    κ.Holds h g ∧ ∀ κ' ∈ rest, κ'.Waiting := by
  refine ⟨hF.holds t κ (hφ ▸ List.mem_cons_self ..), ?_⟩
  have hbelow := hF.below t
  rwa [hφ] at hbelow

theorem AnswerFrames.update (hF : AnswerFrames h g φ) (hg : g.Grows g') {κs : List AnswerPhase}
    (hothers : ∀ u, u ≠ t → g'.arriving u = g.arriving u)
    (harriving : ∀ r, .arriving r ∈ κs → g'.arriving t = some r)
    (hbelow : ∀ κ ∈ κs.tail, κ.Waiting) (hholds : ∀ κ ∈ κs, κ.Holds h g') :
    AnswerFrames h g' (Function.update φ t κs) where
  arriving u r hmem := by
    obtain ⟨rfl, hκ⟩ | ⟨hu, hκ⟩ := mem_update hmem
    · exact harriving r hκ
    · rw [hothers u hu]
      exact hF.arriving u r hκ
  below := (Function.forall_update_iff φ fun _ κs => ∀ κ ∈ κs.tail, κ.Waiting).2
    ⟨hbelow, fun u _ => hF.below u⟩
  holds := (Function.forall_update_iff φ fun _ κs => ∀ κ ∈ κs, κ.Holds h g').2
    ⟨hholds, fun u _ κ hκ => (hF.holds u κ hκ).mono hg⟩

theorem AnswerFrames.run (hF : AnswerFrames h g φ) (hφ : φ t = κ :: rest) (hg : g.Grows g')
    (harriving : g'.arriving = g.arriving) (hw : κ'.Waiting) (hκ' : κ'.Holds h g') :
    AnswerFrames h g' (Function.update φ t (κ' :: rest)) := by
  obtain ⟨_, hrest⟩ := hF.top hφ
  refine hF.update hg (fun u _ => congrFun harriving u) ?_ hrest ?_
  · intro r hmem
    obtain rfl | hmem := List.mem_cons.1 hmem
    · exact absurd hw id
    · exact absurd (hrest _ hmem) id
  · refine List.forall_mem_cons.2 ⟨hκ', fun κ hκ => (hF.holds t κ ?_).mono hg⟩
    rw [hφ]
    exact List.mem_cons_of_mem _ hκ

theorem OwnAnswers.keep (hA : OwnAnswers h w g) (hg : g.Grows g')
    (hd : g'.dispatches = g.dispatches) (hr : w'.returned = w.returned)
    (hc : w'.completions = w.completions) : OwnAnswers h w' g' where
  dispatched d hmem := by
    obtain ⟨r, hreq, hfor⟩ := hA.dispatched d (hd ▸ hmem)
    exact ⟨r, hg.requests _ r hreq, hfor⟩
  returned n v hmem := by
    obtain ⟨r, hreq, hv⟩ := hA.returned n v (hr ▸ hmem)
    exact ⟨r, hg.requests _ r hreq, hv.mono hg⟩
  completed e hmem := by
    obtain ⟨r, hreq, hm, hl, hv⟩ := hA.completed e (hc ▸ hmem)
    exact ⟨r, hg.requests _ r hreq, hm, hl, hv.mono hg⟩

theorem grows_dispatch (g : AnswerRecord) (d : GlueDispatch) :
    g.Grows { g with dispatches := d :: g.dispatches } where
  requests _ _ := id
  dispatches _ := List.mem_cons_of_mem _

theorem OwnAnswers.dispatch (hA : OwnAnswers h w g) {d : GlueDispatch} {r : GlueRequest}
    (hreq : g.requests d.call = some r) (hfor : d.For h r) :
    OwnAnswers h w { g with dispatches := d :: g.dispatches } where
  dispatched := List.forall_mem_cons.2 ⟨⟨r, hreq, hfor⟩, hA.dispatched⟩
  returned n v hmem := by
    obtain ⟨r, hreq, hv⟩ := hA.returned n v hmem
    exact ⟨r, hreq, hv.mono (grows_dispatch g d)⟩
  completed e hmem := by
    obtain ⟨r, hreq, hm, hl, hv⟩ := hA.completed e hmem
    exact ⟨r, hreq, hm, hl, hv.mono (grows_dispatch g d)⟩

theorem OwnAnswers.reply (hA : OwnAnswers h w g) {n : Nat} {r : GlueRequest} {v : QVariant}
    (hreq : g.requests n = some r) (hv : MayAnswer h g n r v) :
    OwnAnswers h { w with returned := (n, v) :: w.returned } g where
  dispatched := hA.dispatched
  returned m v' hmem := by
    obtain he | hmem := List.mem_cons.1 hmem
    · obtain ⟨rfl, rfl⟩ := Prod.mk.inj he
      exact ⟨r, hreq, hv⟩
    · exact hA.returned m v' hmem
  completed := hA.completed

theorem OwnAnswers.complete (hA : OwnAnswers h w g) {e : Completion}
    (he : ∃ r, g.requests e.call = some r ∧ (h.provider r.provider).multi = true ∧
      r.methodName ≠ "lidl" ∧ Replied h g e.call r e.value) :
    OwnAnswers h { w with completions := e :: w.completions } g where
  dispatched := hA.dispatched
  returned := hA.returned
  completed := List.forall_mem_cons.2 ⟨he, hA.completed⟩

theorem glueExec_silent {a : GlueAction} {x : a.Ans} (ha : a.silent = true)
    (he : glueExec h t w a x w') : w'.calls = w.calls ∧ w'.queue = w.queue ∧
      w'.returned = w.returned ∧ w'.completions = w.completions ∧
      AnswerRecord.exec t a x g = g := by
  cases a with
  | openScope | setEventListener | invokeCurrentCallerJson | fetchAdd | eventCallback =>
    obtain ⟨_, rfl⟩ := he
    exact ⟨rfl, rfl, rfl, rfl, rfl⟩
  | closeScope | setCallCaller | getMethods | finishTask =>
    obtain rfl := he
    exact ⟨rfl, rfl, rfl, rfl, rfl⟩
  | _ => cases ha

theorem AnswerInvariant.silent (hI : AnswerInvariant h w g φ) {a : GlueAction} {x : a.Ans}
    (ha : a.silent = true) (he : glueExec h t w a x w') :
    AnswerInvariant h w' (AnswerRecord.exec t a x g) φ := by
  obtain ⟨hcalls, hqueue, hreturned, hcompletions, hg⟩ := glueExec_silent (g := g) ha he
  rw [hg]
  constructor
  · exact hI.frames
  · rw [hcalls]
    exact hI.fresh
  · rw [hqueue]
    exact hI.queued
  · rw [hqueue, hcalls]
    exact hI.owners
  · exact hI.answered.keep (.refl g) rfl hreturned hcompletions

theorem AnswerInvariant.move (hI : AnswerInvariant h w g φ) (hφ : φ t = κ :: rest)
    {a : GlueAction} {x : a.Ans} (hm : Move h κ a x κ') (he : glueExec h t w a x w') :
    AnswerInvariant h w' (AnswerRecord.exec t a x g) (Function.update φ t (κ' :: rest)) := by
  have hκ := (hI.frames.top hφ).1
  cases hm with
  | enter r d n =>
    obtain ⟨rfl, rfl⟩ := he
    have harriving := hI.frames.arriving t r (hφ ▸ List.mem_cons_self ..)
    have hg : g.Grows { g with
        requests := Function.update g.requests w.calls.length (g.arriving t) } := by
      refine ⟨fun m r' hm => ?_, fun _ => id⟩
      have hne : m ≠ w.calls.length := by
        rintro rfl
        rw [hI.fresh _ (Nat.le_refl _)] at hm
        cases hm
      exact (Function.update_of_ne hne ..).trans hm
    have hlength (call : GlueCall) : (w.enterCall call).calls.length = w.calls.length + 1 :=
      List.length_append
    have howners : CallOwners (Function.update φ t (serving w.calls.length r :: rest)) w.queue
        g.dispatches (w.calls.length + 1) := hI.owners.enter hφ rfl
    constructor
    · refine hI.frames.run hφ hg rfl trivial ?_
      exact (Function.update_self ..).trans harriving
    · intro m hm
      rw [hlength] at hm
      have hne : m ≠ w.calls.length := by omega
      exact (Function.update_of_ne hne ..).trans (hI.fresh m (by omega))
    · exact fun p task hmem => (hI.queued p task hmem).mono hg
    · rw [hlength]
      exact howners
    · exact hI.answered.keep hg rfl rfl rfl
  | dispatch n r answer hm hl =>
    obtain rfl := he
    have hg := grows_dispatch g ⟨n, r.provider, r.methodName, dumpArgs h r.args, answer⟩
    exact {
      frames := hI.frames.run hφ hg rfl trivial
        ⟨hκ, hm, hl, _, List.mem_cons_self .., rfl, rfl⟩
      fresh := hI.fresh
      queued := fun p task hmem => (hI.queued p task hmem).mono hg
      owners := hI.owners.dispatch hφ rfl rfl
      answered := hI.answered.dispatch hκ ⟨rfl, rfl, rfl, hl⟩ }
  | queue n r task x hm hl hmakes =>
    obtain rfl := he
    obtain rfl := hmakes.call
    have hcarried : Carried h g r.provider task := ⟨r, hκ, rfl, hm, hl, hmakes⟩
    constructor
    · exact hI.frames.run hφ (.refl g) rfl trivial ⟨hκ, hm, hl⟩
    · exact hI.fresh
    · apply (Function.forall_update_iff w.queue fun p tasks =>
        ∀ task ∈ tasks, Carried h g p task).2
      refine ⟨fun task' hmem => ?_, fun p _ => hI.queued p⟩
      obtain hmem | hmem := List.mem_append.1 hmem
      · exact hI.queued _ task' hmem
      · rw [List.mem_singleton.1 hmem]
        exact hcarried
    · exact hI.owners.start hφ rfl rfl r.provider
    · exact hI.answered.keep (.refl g) rfl rfl rfl
  | builtIn n r x hl =>
    obtain rfl := he
    exact {
      frames := hI.frames.run hφ (.refl g) rfl trivial trivial
      fresh := hI.fresh
      queued := hI.queued
      owners := hI.owners.run hφ rfl
      answered := hI.answered.reply hκ (by rw [MayAnswer, if_pos hl]) }
  | returned n r answer v x hv =>
    obtain rfl := he
    obtain ⟨hreq, hm, hl, d, hd, hcall, rfl⟩ := hκ
    have hanswer : MayAnswer h g n r v := by
      rw [MayAnswer, if_neg hl, if_neg (by rw [hm]; exact Bool.false_ne_true)]
      exact ⟨d, hd, hcall, hv⟩
    exact {
      frames := hI.frames.run hφ (.refl g) rfl trivial trivial
      fresh := hI.fresh
      queued := hI.queued
      owners := hI.owners.run hφ rfl
      answered := hI.answered.reply hreq hanswer }
  | pending n r callId x =>
    obtain rfl := he
    obtain ⟨hreq, hm, hl⟩ := hκ
    have hanswer : MayAnswer h g n r (h.pending callId) := by
      rw [MayAnswer, if_neg hl, if_pos hm]
      exact ⟨callId, rfl⟩
    exact {
      frames := hI.frames.run hφ (.refl g) rfl trivial trivial
      fresh := hI.fresh
      queued := hI.queued
      owners := hI.owners.run hφ rfl
      answered := hI.answered.reply hreq hanswer }
  | work p task answer =>
    obtain rfl := he
    have hg := grows_dispatch g ⟨task.call, p, task.method, task.dumped, answer⟩
    obtain ⟨r, hreq, hp, hm, hl, hmakes⟩ := hκ
    exact {
      frames := hI.frames.run hφ hg rfl trivial
        ⟨⟨r, hreq, hp, hm, hl, hmakes⟩, _, List.mem_cons_self .., rfl, rfl⟩
      fresh := hI.fresh
      queued := fun q task' hmem => (hI.queued q task' hmem).mono hg
      owners := hI.owners.dispatch hφ rfl rfl
      answered := hI.answered.dispatch hreq (hmakes.for hp hl) }
  | complete p task answer l callId v x hv =>
    obtain rfl := he
    exact {
      frames := hI.frames.run hφ (.refl g) rfl trivial trivial
      fresh := hI.fresh
      queued := hI.queued
      owners := hI.owners.run hφ rfl
      answered := hI.answered.complete (hκ.1.replied hκ.2 hv) }
  | terminate => cases he

theorem AnswerInvariant.initial (h : GlueHost) : AnswerInvariant h {} {} fun _ => [] where
  frames :=
    { arriving := fun _ _ hmem => absurd hmem List.not_mem_nil
      below := fun _ _ hmem => absurd hmem List.not_mem_nil
      holds := fun _ _ hmem => absurd hmem List.not_mem_nil }
  fresh _ _ := rfl
  queued _ _ hmem := absurd hmem List.not_mem_nil
  owners := ⟨0, 0, .empty, .empty, fun _ => Nat.zero_le _⟩
  answered :=
    { dispatched := fun _ hmem => absurd hmem List.not_mem_nil
      returned := fun _ _ hmem => absurd hmem List.not_mem_nil
      completed := fun _ hmem => absurd hmem List.not_mem_nil }

theorem AnswerInvariant.leave (hI : AnswerInvariant h w g φ) (hφ : φ t = κ :: rest) :
    AnswerInvariant h w g (Function.update φ t rest) where
  frames := by
    obtain ⟨_, hrest⟩ := hI.frames.top hφ
    have hmem {κ' : AnswerPhase} (hκ' : κ' ∈ rest) : κ' ∈ φ t := by
      rw [hφ]
      exact List.mem_cons_of_mem _ hκ'
    exact hI.frames.update (.refl g) (fun _ _ => rfl)
      (fun r hr => hI.frames.arriving t r (hmem hr))
      (fun κ' hκ' => hrest κ' (List.mem_of_mem_tail hκ'))
      fun κ' hκ' => hI.frames.holds t κ' (hmem hκ')
  fresh := hI.fresh
  queued := hI.queued
  owners := hI.owners.leave hφ
  answered := hI.answered

theorem AnswerRecord.Grows.arrive (g : AnswerRecord) (t : Nat) (r : GlueRequest) :
    g.Grows (g.arrive t r) := ⟨fun _ _ => id, fun _ => id⟩

theorem AnswerInvariant.arrive (hI : AnswerInvariant h w g φ) (hw : ∀ κ ∈ φ t, κ.Waiting)
    (r : GlueRequest) :
    AnswerInvariant h w (g.arrive t r) (Function.update φ t (.arriving r :: φ t)) where
  frames := by
    refine hI.frames.update (.arrive g t r) (fun u hu => Function.update_of_ne hu ..) ?_ hw ?_
    · intro r' hmem
      obtain he | hmem := List.mem_cons.1 hmem
      · obtain rfl := AnswerPhase.arriving.inj he
        exact Function.update_self ..
      · exact absurd (hw _ hmem) id
    · exact List.forall_mem_cons.2 ⟨trivial, fun κ hκ => (hI.frames.holds t κ hκ).mono
        (.arrive g t r)⟩
  fresh := hI.fresh
  queued p task hmem := (hI.queued p task hmem).mono (.arrive g t r)
  owners := hI.owners.push t rfl
  answered := hI.answered.keep (.arrive g t r) rfl rfl rfl

theorem AnswerInvariant.push (hI : AnswerInvariant h w g φ) (hw : ∀ κ ∈ φ t, κ.Waiting) :
    AnswerInvariant h w g (Function.update φ t (.outside :: φ t)) where
  frames := by
    refine hI.frames.update (.refl g) (fun _ _ => rfl) ?_ hw
      (List.forall_mem_cons.2 ⟨trivial, hI.frames.holds t⟩)
    intro r hmem
    obtain he | hmem := List.mem_cons.1 hmem
    · cases he
    · exact absurd (hw _ hmem) id
  fresh := hI.fresh
  queued := hI.queued
  owners := hI.owners.push t rfl
  answered := hI.answered

theorem AnswerInvariant.work (hI : AnswerInvariant h w g φ) (hw : ∀ κ ∈ φ t, κ.Waiting)
    {p : Nat} {before after : List GlueTask} {task : GlueTask}
    (hq : w.queue p = before ++ task :: after) :
    AnswerInvariant h (w.takeTask p t (before ++ after)) g
      (Function.update φ t (.working p task :: φ t)) where
  frames := by
    have hcarried := hI.queued p task (hq ▸ List.mem_append_right _ (List.mem_cons_self ..))
    refine hI.frames.update (.refl g) (fun _ _ => rfl) ?_ hw
      (List.forall_mem_cons.2 ⟨hcarried, hI.frames.holds t⟩)
    intro r hmem
    obtain he | hmem := List.mem_cons.1 hmem
    · cases he
    · exact absurd (hw _ hmem) id
  fresh := hI.fresh
  queued := by
    apply (Function.forall_update_iff w.queue fun p tasks =>
      ∀ task ∈ tasks, Carried h g p task).2
    refine ⟨fun task' hmem => hI.queued p task' ?_, fun q _ => hI.queued q⟩
    rw [hq]
    exact (List.Sublist.append_left (List.sublist_cons_self ..) _).subset hmem
  owners := hI.owners.take t hq rfl
  answered := hI.answered.keep (.refl g) rfl rfl rfl

theorem AnswerRecord.Enter.answers {within : Option GlueAction} {prog : GlueProg Unit}
    {s s' : GlueWorld × AnswerRecord} (he : AnswerRecord.Enter h t s within prog s')
    (hI : AnswerInvariant h s.1 s.2 φ) (hw : ∀ κ ∈ φ t, κ.Waiting) :
    ∃ κ, Follows (next h) (fun _ κ => κ.Waiting) prog κ ∧
      AnswerInvariant h s'.1 s'.2 (Function.update φ t (κ :: φ t)) := by
  cases he with
  | receive r => exact ⟨_, receive_answers r, hI.arrive hw r⟩
  | deliver r scope => exact ⟨_, deliver_answers r scope, hI.arrive hw r⟩
  | setEventListener p listener =>
    exact ⟨.outside, follows_silent rfl (.inr rfl) fun _ => trivial, hI.push hw⟩
  | work p before after hq => exact ⟨_, runTask_answers p _, hI.work hw hq⟩

theorem AnswerRecord.Enter.leavesGlue {a : GlueAction} {prog : GlueProg Unit}
    {s s' : GlueWorld × AnswerRecord} (he : AnswerRecord.Enter h t s (some a) prog s') :
    a.leavesGlue = true := GlueEnter.leavesGlue ((answerRecorder h).entered he)

end

end LogosPluginQt
