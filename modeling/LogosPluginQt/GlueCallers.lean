import LogosPluginQt.GlueCallerPhases
import LogosPluginQt.GlueReply

namespace LogosPluginQt
open Interleaving Glue GlueWorld CallerPhase
set_option autoImplicit true

/-- Call `n` is on provider `p`, and `doc` is the document it is to be attributed to. -/
def GlueWorld.Attributed (w : GlueWorld) (p n : Nat) (doc : String) : Prop :=
  ∃ call, w.calls[n]? = some call ∧ call.provider = p ∧ call.caller.text = doc

namespace CallerPhase

def document (h : GlueHost) (image : Nat) : CallerPhase → Option String
  | .pushed p _ doc | .dispatched p _ doc => if h.image p = image then some doc else none
  | _ => none

/-- What a frame says of its call: until it has pulled, the scope of its thread is still
the one its call was entered under. -/
def Holds (h : GlueHost) (w : GlueWorld) (t : Nat) : CallerPhase → Prop
  | .outside => True
  | .entered p n => (h.provider p).hasLogosAPI = true ∧
    w.Attributed p n (h.attributed p (w.scope t)).text
  | .pulled p n doc | .pushed p n doc | .dispatched p n doc => w.Attributed p n doc

def Waiting : CallerPhase → Prop
  | .outside | .pushed _ _ _ => True
  | _ => False

end CallerPhase

/-- The running frame holds what its phase says, and so do the ones that wait below it. -/
def CallersHold (h : GlueHost) (w : GlueWorld) (t : Nat) : List CallerPhase → Prop
  | [] => True
  | κ :: rest => κ.Holds h w t ∧ ∀ κ' ∈ rest, κ'.Waiting ∧ κ'.Holds h w t

structure CallerInvariant (h : GlueHost) (w : GlueWorld) (φ : Nat → List CallerPhase) : Prop where
  frames : ∀ t, CallersHold h w t (φ t)
  queue : ∀ p, ∀ task ∈ w.queue p, w.Attributed p task.call task.callerJson
  callers : ∀ image t, w.callers image t = (φ t).filterMap (document h image)

section
variable {h : GlueHost} {w w' : GlueWorld} {t : Nat} {κ κ' : CallerPhase}

theorem GlueWorld.Attributed.mono {p n : Nat} {doc : String} (hd : w.Attributed p n doc)
    (hc : CallsKept w w') : w'.Attributed p n doc := by
  obtain ⟨call, hn, he⟩ := hd
  exact ⟨call, hc n call hn, he⟩

theorem CallerPhase.Holds.mono (hκ : κ.Holds h w t) (hc : CallsKept w w')
    (hs : κ.Waiting ∨ w'.scope t = w.scope t) : κ.Holds h w' t := by
  cases κ with
  | outside => trivial
  | entered p n =>
    obtain hwait | hs := hs
    · cases hwait
    · exact ⟨hκ.1, hs ▸ hκ.2.mono hc⟩
  | _ => exact GlueWorld.Attributed.mono hκ hc

structure CallerStep (h : GlueHost) (t : Nat) (κ κ' : CallerPhase) (w w' : GlueWorld) :
    Prop where
  scope : ∀ u, u ≠ t → w'.scope u = w.scope u
  holds : κ'.Holds h w' t
  queue : ∀ p, ∀ task ∈ w'.queue p, task ∈ w.queue p ∨ w.Attributed p task.call task.callerJson
  callers : ∀ image κs, w.callers image t = (κ :: κs).filterMap (document h image) →
    w'.callers image t = (κ' :: κs).filterMap (document h image)
  others : ∀ image u, u ≠ t → w'.callers image u = w.callers image u

theorem CallerStep.keep (hs : w'.scope = w.scope) (hq : w'.queue = w.queue)
    (hc : w'.callers = w.callers) (hκ : κ'.Holds h w' t)
    (hd : ∀ image, document h image κ' = document h image κ) : CallerStep h t κ κ' w w' where
  scope u _ := congrFun hs u
  holds := hκ
  queue p task ht := .inl (hq ▸ ht)
  callers image κs he := by
    rw [hc, he, List.filterMap_cons, List.filterMap_cons, hd]
  others image u _ := by rw [hc]

theorem document_of_quiet (hκ : κ.Quiet) (image : Nat) : document h image κ = none := by
  cases κ with
  | pushed | dispatched => cases hκ
  | _ => rfl

/-- The host answers a pull with the document its caller is to be attributed to. -/
theorem answered_eq (hg : h.callerGuard = true) {p : Nat} (hp : (h.provider p).hasLogosAPI = true)
    (scope : Option CallerDoc) :
    answered h (if h.hostHasInvokable then some (h.logosApiCurrentCallerJson scope) else none) =
      (h.attributed p scope).text := by
  unfold GlueHost.attributed GlueHost.logosApiCurrentCallerJson
  cases h.hostHasInvokable with
  | false => simp only [Bool.false_eq_true, ↓reduceIte, Bool.and_false, answered]
  | true =>
    have hne := (scope.getD h.callerUnknownJson).ne
    simp only [hp, hg, Bool.and_self, ↓reduceIte, answered, if_pos hne]

theorem start_holds {p : Nat} {deferred : Bool} {listener : Option Nat}
    (hs : w'.scope t = w.scope t)
    (hc : w'.calls = w.calls ++ [⟨p, deferred, h.attributed p (w.scope t), listener⟩]) :
    (start h p w.calls.length).Holds h w' t := by
  have hn : w'.Attributed p w.calls.length (h.attributed p (w.scope t)).text :=
    ⟨_, by rw [hc, List.getElem?_concat_length], rfl, rfl⟩
  unfold start
  split
  next hp => exact ⟨hp, hs ▸ hn⟩
  next hp =>
    have hu : h.attributed p (w.scope t) = h.callerUnknownJson := by
      simp only [GlueHost.attributed, hp, Bool.false_and, Bool.false_eq_true, ↓reduceIte]
    exact hu ▸ hn

theorem setCallCaller_callers (image t : Nat) (doc : Option String) :
    (w.setCallCaller image t doc).callers image t = match doc with
      | some doc => doc :: w.callers image t
      | none => (w.callers image t).tail := by
  cases doc <;> simp only [setCallCaller, Function.update_self]

theorem setCallCaller_others {image image' t u : Nat} (hu : image' ≠ image ∨ u ≠ t)
    (doc : Option String) :
    (w.setCallCaller image t doc).callers image' u = w.callers image' u := by
  unfold setCallCaller
  by_cases hi : image' = image
  · subst hi
    simp only [Function.update_self, Function.update_of_ne (hu.resolve_left fun hne => hne rfl)]
  · simp only [Function.update_of_ne hi]

theorem CallerStep.of_move {a : GlueAction} {r : a.Ans} (hg : h.callerGuard = true)
    (hκ : κ.Holds h w t) (hm : Move h κ a r κ') (he : glueExec h t w a r w') :
    CallerStep h t κ κ' w w' := by
  cases hm with
  | openScope doc r =>
    obtain ⟨_, rfl⟩ := he
    exact ⟨fun u hu => Function.update_of_ne hu .., trivial, fun _ _ => .inl, fun _ _ => id,
      fun _ _ _ => rfl⟩
  | closeScope doc r =>
    obtain rfl := he
    exact ⟨fun u hu => Function.update_of_ne hu .., trivial, fun _ _ => .inl, fun _ _ => id,
      fun _ _ _ => rfl⟩
  | returned κ n v r hq =>
    obtain rfl := he
    exact .keep rfl rfl rfl trivial fun image => (document_of_quiet hq image).symm
  | listen p l r =>
    obtain ⟨_, rfl⟩ := he
    exact .keep rfl rfl rfl trivial fun _ => rfl
  | list p r | complete l n id v r | finish p r =>
    obtain rfl := he
    exact .keep rfl rfl rfl trivial fun _ => rfl
  | terminate r => cases he
  | enter p d n =>
    obtain ⟨rfl, rfl⟩ := he
    refine .keep rfl rfl rfl (start_holds rfl rfl) fun image => ?_
    apply document_of_quiet
    unfold start
    split <;> trivial
  | pull p n r =>
    obtain ⟨rfl, rfl⟩ := he
    refine .keep rfl rfl rfl ?_ fun _ => rfl
    have hdoc := answered_eq hg hκ.1 (w'.scope t)
    exact hdoc ▸ hκ.2
  | draw κ p n r hq =>
    obtain ⟨rfl, rfl⟩ := he
    exact .keep rfl rfl rfl (hκ.mono (fun _ _ => id) (.inr rfl)) fun _ => rfl
  | copy κ p n r hq =>
    obtain ⟨rfl, rfl⟩ := he
    exact .keep rfl rfl rfl (hκ.mono (fun _ _ => id) (.inr rfl)) fun _ => rfl
  | push p n doc r =>
    obtain rfl := he
    refine ⟨fun _ _ => rfl, hκ, fun _ _ => .inl, fun image κs hs => ?_,
      fun image u hu => setCallCaller_others (.inr hu) _⟩
    by_cases hi : h.image p = image
    · subst hi
      simp only [setCallCaller_callers, hs, document, List.filterMap_cons, ↓reduceIte]
    · rw [setCallCaller_others (.inl (Ne.symm hi)), hs]
      simp only [document, List.filterMap_cons, if_neg hi]
  | queue p task r =>
    obtain rfl := he
    refine ⟨fun _ _ => rfl, trivial, ?_, fun _ _ => id, fun _ _ _ => rfl⟩
    apply (Function.forall_update_iff w.queue fun p' tasks => ∀ task' ∈ tasks,
      task' ∈ w.queue p' ∨ w.Attributed p' task'.call task'.callerJson).2
    refine ⟨fun task' ht => ?_, fun _ _ _ => .inl⟩
    obtain ht | ht := List.mem_append.1 ht
    · exact .inl ht
    · obtain rfl := List.mem_singleton.1 ht
      exact .inr hκ
  | dispatch p n doc m d r =>
    obtain rfl := he
    exact .keep rfl rfl rfl hκ fun _ => rfl
  | pop p n doc r =>
    obtain rfl := he
    refine ⟨fun _ _ => rfl, trivial, fun _ _ => .inl, fun image κs hs => ?_,
      fun image u hu => setCallCaller_others (.inr hu) _⟩
    by_cases hi : h.image p = image
    · subst hi
      simp only [setCallCaller_callers, hs, document, List.filterMap_cons, ↓reduceIte,
        List.tail_cons]
    · rw [setCallCaller_others (.inl (Ne.symm hi)), hs]
      simp only [document, List.filterMap_cons, if_neg hi]

variable {φ : Nat → List CallerPhase} {rest : List CallerPhase}

theorem CallersHold.mono {κs : List CallerPhase} (hκs : CallersHold h w t κs)
    (hc : CallsKept w w') (hs : w'.scope t = w.scope t) : CallersHold h w' t κs := by
  cases κs with
  | nil => trivial
  | cons κ rest =>
    exact ⟨hκs.1.mono hc (.inr hs), fun κ' hmem =>
      ⟨(hκs.2 κ' hmem).1, (hκs.2 κ' hmem).2.mono hc (.inr hs)⟩⟩

theorem CallerInvariant.top (hI : CallerInvariant h w φ) (hφ : φ t = κ :: rest) :
    κ.Holds h w t ∧ ∀ κ' ∈ rest, κ'.Waiting ∧ κ'.Holds h w t := by
  have hf := hI.frames t
  rwa [hφ] at hf

theorem CallerInvariant.run (hI : CallerInvariant h w φ) (hφ : φ t = κ :: rest)
    (hE : CallerStep h t κ κ' w w') (hc : CallsKept w w') :
    CallerInvariant h w' (Function.update φ t (κ' :: rest)) := by
  obtain ⟨_, hrest⟩ := hI.top hφ
  constructor
  · apply (Function.forall_update_iff φ (CallersHold h w')).2
    refine ⟨⟨hE.holds, fun κ'' hmem => ?_⟩, fun u hu => (hI.frames u).mono hc (hE.scope u hu)⟩
    obtain ⟨hwait, hholds⟩ := hrest κ'' hmem
    exact ⟨hwait, hholds.mono hc (.inl hwait)⟩
  · intro p task ht
    obtain hq | ha := hE.queue p task ht
    · exact (hI.queue p task hq).mono hc
    · exact ha.mono hc
  · intro image
    apply (Function.forall_update_iff φ fun u κs =>
      w'.callers image u = κs.filterMap (document h image)).2
    constructor
    · apply hE.callers
      rw [hI.callers, hφ]
    · intro u hu
      rw [hE.others image u hu, hI.callers]

theorem CallerInvariant.leave (hI : CallerInvariant h w φ) (hφ : φ t = .outside :: rest) :
    CallerInvariant h w (Function.update φ t rest) := by
  have hf := hI.top hφ
  constructor
  · apply (Function.forall_update_iff φ (CallersHold h w)).2
    refine ⟨?_, fun u _ => hI.frames u⟩
    cases rest with
    | nil => trivial
    | cons κ rest =>
      obtain ⟨hκ, hrest⟩ := List.forall_mem_cons.1 hf.2
      exact ⟨hκ.2, hrest⟩
  · exact hI.queue
  · intro image
    apply (Function.forall_update_iff φ fun u κs =>
      w.callers image u = κs.filterMap (document h image)).2
    refine ⟨?_, fun u _ => hI.callers image u⟩
    rw [hI.callers, hφ]
    rfl

theorem CallerInvariant.enter (hI : CallerInvariant h w φ) (hκ : κ.Holds h w' t)
    (hd : ∀ image, document h image κ = none) (hw : ∀ κ' ∈ φ t, κ'.Waiting)
    (hc : CallsKept w w') (hs : w'.scope = w.scope) (hcallers : w'.callers = w.callers)
    (hq : ∀ p, ∀ task ∈ w'.queue p, task ∈ w.queue p) :
    CallerInvariant h w' (Function.update φ t (κ :: φ t)) := by
  have hframes : ∀ κ' ∈ φ t, κ'.Holds h w t := by
    have hf := hI.frames t
    cases hφ : φ t with
    | nil => exact fun _ hmem => absurd hmem List.not_mem_nil
    | cons κ'' rest =>
      rw [hφ] at hf
      exact List.forall_mem_cons.2 ⟨hf.1, fun κ' hmem => (hf.2 κ' hmem).2⟩
  constructor
  · apply (Function.forall_update_iff φ (CallersHold h w')).2
    refine ⟨⟨hκ, fun κ' hmem => ?_⟩, fun u _ => (hI.frames u).mono hc (congrFun hs u)⟩
    exact ⟨hw κ' hmem, (hframes κ' hmem).mono hc (.inl (hw κ' hmem))⟩
  · exact fun p task ht => (hI.queue p task (hq p task ht)).mono hc
  · intro image
    rw [hcallers]
    apply (Function.forall_update_iff φ fun u κs =>
      w.callers image u = κs.filterMap (document h image)).2
    refine ⟨?_, fun u _ => hI.callers image u⟩
    rw [List.filterMap_cons, hd, hI.callers]

theorem waiting_of_leavesGlue {a : GlueAction} (ha : a.leavesGlue = true)
    (hnext : ∀ r, ∃ κ', next h κ a r = some κ') : κ.Waiting := by
  cases a with
  | dispatch p n m d =>
    obtain ⟨κ', hn⟩ := hnext none
    cases next_move hn
    trivial
  | getMethods p =>
    obtain ⟨κ', hn⟩ := hnext none
    cases next_move hn
    trivial
  | eventCb l n id v =>
    obtain ⟨κ', hn⟩ := hnext ()
    cases next_move hn
    trivial
  | _ => cases ha

theorem GlueEnter.starts {within : Option GlueAction} {prog : GlueProg Unit}
    (hg : h.callerGuard = true) (hI : CallerInvariant h w φ) (hw : ∀ κ ∈ φ t, κ.Waiting)
    (he : GlueEnter h t w within prog w') :
    ∃ κ, Follows (next h) (fun _ κ => κ = .outside) prog κ ∧
      CallerInvariant h w' (Function.update φ t (κ :: φ t)) := by
  cases he with
  | receive p methodName args =>
    refine ⟨.outside, receive_follows hg methodName args, ?_⟩
    exact hI.enter trivial (fun _ => rfl) hw (fun _ _ => id) rfl rfl fun _ _ => id
  | deliver p scope methodName args =>
    refine ⟨.outside, deliver_follows hg scope methodName args, ?_⟩
    exact hI.enter trivial (fun _ => rfl) hw (fun _ _ => id) rfl rfl fun _ _ => id
  | setEventListener p listener =>
    refine ⟨.outside, fun _ => ⟨_, rfl, rfl⟩, ?_⟩
    exact hI.enter trivial (fun _ => rfl) hw (fun _ _ => id) rfl rfl fun _ _ => id
  | @work p before after task hq _ =>
    have ha := hI.queue p task (hq ▸ List.mem_append_right _ (List.mem_cons_self ..))
    refine ⟨_, runTask_follows hg task, ?_⟩
    refine hI.enter ha (fun _ => rfl) hw (fun _ _ => id) rfl rfl ?_
    apply (Function.forall_update_iff w.queue fun p' tasks => ∀ task' ∈ tasks,
      task' ∈ w.queue p').2
    refine ⟨fun task' ht => ?_, fun _ _ _ => id⟩
    rw [hq]
    exact ((List.sublist_cons_self task after).append_left before).subset ht

theorem caller_invariant (hg : h.callerGuard = true) :
    PhaseInvariant (glueSystem h) (next h) (fun _ κ => κ = .outside) (CallerInvariant h) where
  run hI hφ he hn :=
    hI.run hφ (.of_move hg (hI.top hφ).1 (next_move hn) he) (glueExec_calls he)
  leave hI hφ hκ := by
    subst hκ
    exact hI.leave hφ
  enter hI hφ he := by
    have hs := he.starts hg hI (hφ ▸ fun _ hmem => absurd hmem List.not_mem_nil)
    rwa [hφ] at hs
  nest hI hφ hallowed he := by
    refine he.starts hg hI ?_
    rw [hφ]
    exact List.forall_mem_cons.2 ⟨waiting_of_leavesGlue he.leavesGlue hallowed,
      fun κ' hmem => ((hI.top hφ).2 κ' hmem).1⟩

/-- The document the frame of a program has in a store, by the action it is in. -/
def openDocument (h : GlueHost) (w : GlueWorld) (image : Nat) (prog : GlueProg Unit) :
    Option String :=
  match prog.pending with
  | some (.dispatch p n _ _) | some (.setCallCaller p n none) =>
    if h.image p = image then w.calls[n]?.map fun call => call.caller.text else none
  | _ => none

theorem GlueAction.answer (a : GlueAction) : Nonempty a.Ans := by
  cases a <;> exact ⟨default⟩

variable {prog : GlueProg Unit}

/-- A frame that follows its phase has the document of its phase, then and later. -/
theorem openDocument_eq (hf : Follows (next h) (fun _ κ => κ = .outside) prog κ)
    (hκ : κ.Holds h w t) (hc : CallsKept w w') (image : Nat) :
    openDocument h w' image prog = document h image κ := by
  have hopen {p n : Nat} {doc : String} (hd : w.Attributed p n doc) :
      (w'.calls[n]?.map fun call => call.caller.text) = some doc := by
    obtain ⟨call, hn, _, rfl⟩ := hd.mono hc
    rw [hn, Option.map_some]
  cases prog with
  | ret x =>
    obtain rfl := hf
    rfl
  | act a resume =>
    obtain ⟨r⟩ := a.answer
    obtain ⟨κ', hn, _⟩ := hf r
    cases next_move hn with
    | returned κ n v r hq | draw κ p n r hq | copy κ p n r hq =>
      exact (document_of_quiet hq image).symm
    | dispatch p n doc m d r | pop p n doc r =>
      simp only [openDocument, Prog.pending_act, document, hopen hκ]
    | _ => rfl

structure CallersAttributed (h : GlueHost) (c : GlueConfig) : Prop where
  pushed : ∀ t p n doc resume rest,
    c.stack t = .act (.setCallCaller p n (some doc)) resume :: rest →
    c.shared.Attributed p n doc ∧ doc ≠ "" ∧ '\x00' ∉ doc.toList
  innermost : ∀ t p n method dumped resume rest,
    c.stack t = .act (.dispatch p n method dumped) resume :: rest →
    (∃ doc, (c.shared.callers (h.image p) t).head? = some doc ∧ c.shared.Attributed p n doc) ∧
      ∀ result, (resume result).pending = some (.setCallCaller p n none)
  restored : ∀ t p n doc resume rest,
    c.stack t = .act (.setCallCaller p n (some doc)) resume :: rest →
    ∀ c', Relation.ReflTransGen (Step (glueSystem h)) c c' →
    ∀ resume', c'.stack t = .act (.setCallCaller p n none) resume' :: rest →
    ∀ w', glueExec h t c'.shared (.setCallCaller p n none) () w' →
    ∀ image, w'.callers image t = c.shared.callers image t

theorem caller_reachable {h : GlueHost} (hg : h.callerGuard = true) {c : GlueConfig}
    (hr : Reachable (glueSystem h) {} c) :
    ∃ φ, Tracks (next h) (fun _ κ => κ = .outside) c φ ∧ CallerInvariant h c.shared φ := by
  refine (caller_invariant hg).reachable ?_ hr
  exact ⟨fun _ => trivial, fun _ _ hmem => absurd hmem List.not_mem_nil, fun _ _ => rfl⟩

/-- The store of a thread holds the documents of its frames, innermost first. -/
theorem callers_eq {c : GlueConfig} (hc : Tracks (next h) (fun _ κ => κ = .outside) c φ)
    (hI : CallerInvariant h c.shared φ) (hk : CallsKept c.shared w') (image t : Nat) :
    c.shared.callers image t = (c.stack t).filterMap (openDocument h w' image) := by
  have hall : ∀ {progs κs}, List.Forall₂ (Follows (next h) fun _ κ => κ = .outside) progs κs →
      (∀ κ ∈ κs, κ.Holds h c.shared t) →
      κs.filterMap (document h image) = progs.filterMap (openDocument h w' image) := by
    intro progs κs hf
    induction hf with
    | nil => exact fun _ => rfl
    | cons hκ _ ih =>
      intro hholds
      obtain ⟨h₁, h₂⟩ := List.forall_mem_cons.1 hholds
      rw [List.filterMap_cons, List.filterMap_cons, openDocument_eq hκ h₁ hk image, ih h₂]
  rw [hI.callers]
  apply hall (hc t)
  cases hφ : φ t with
  | nil => exact fun _ hmem => absurd hmem List.not_mem_nil
  | cons κ rest =>
    obtain ⟨hκ, hrest⟩ := hI.top hφ
    exact List.forall_mem_cons.2 ⟨hκ, fun κ' hmem => (hrest κ' hmem).2⟩

theorem popped_attributed {c : GlueConfig}
    (hc : Tracks (next h) (fun _ κ => κ = .outside) c φ) (hI : CallerInvariant h c.shared φ)
    {p n : Nat} {resume : Unit → GlueProg Unit} {frames : List (GlueProg Unit)}
    (ht : c.stack t = .act (.setCallCaller p n none) resume :: frames) :
    ∃ call, c.shared.calls[n]? = some call ∧ call.provider = p := by
  obtain ⟨κ, κs, hφ, hκ, _⟩ := hc.cons ht
  obtain ⟨κ', hn, _⟩ := hκ ()
  cases next_move hn with
  | pop =>
    obtain ⟨call, hcall, hp, _⟩ := (hI.top hφ).1
    exact ⟨call, hcall, hp⟩

/-- Every dispatch is attributed to its own caller, however calls overlap and nest. -/
theorem callers_attributed {h : GlueHost} (hg : h.callerGuard = true) {c : GlueConfig}
    (hr : Reachable (glueSystem h) {} c) : CallersAttributed h c := by
  obtain ⟨φ, hc, hI⟩ := caller_reachable hg hr
  refine ⟨?_, ?_, ?_⟩
  · intro t p n doc resume rest ht
    obtain ⟨κ, κs, hφ, hκ, _⟩ := hc.cons ht
    obtain ⟨κ', hn, _⟩ := hκ ()
    cases next_move hn with
    | push =>
      have ha := (hI.top hφ).1
      obtain ⟨call, hcall, hp, rfl⟩ := ha
      exact ⟨⟨call, hcall, hp, rfl⟩, call.caller.ne, call.caller.noNul⟩
  · intro t p n method dumped resume rest ht
    obtain ⟨κ, κs, hφ, hκ, _⟩ := hc.cons ht
    constructor
    · obtain ⟨κ', hn, _⟩ := hκ none
      cases next_move hn with
      | dispatch _ _ doc =>
        refine ⟨doc, ?_, (hI.top hφ).1⟩
        rw [hI.callers, hφ]
        simp only [document, List.filterMap_cons, ↓reduceIte, List.head?_cons]
    · intro result
      obtain ⟨κ', hn, hκ'⟩ := hκ result
      cases next_move hn with
      | dispatch _ _ doc =>
        cases hresume : resume result with
        | ret x =>
          rw [hresume] at hκ'
          cases hκ'
        | act a resume' =>
          rw [hresume] at hκ'
          obtain ⟨r⟩ := a.answer
          obtain ⟨κ'', hn', _⟩ := hκ' r
          cases next_move hn' with
          | pop => rfl
          | returned _ _ _ _ hq | draw _ _ _ _ hq | copy _ _ _ _ hq => cases hq
  · intro t p n doc resume rest ht c' hs resume' ht' w' he image
    have hr' : Reachable (glueSystem h) {} c' := Relation.ReflTransGen.trans hr hs
    obtain ⟨φ', hc', hI'⟩ := caller_reachable hg hr'
    have hbefore := callers_eq hc hI (steps_calls hs) image t
    have hafter := callers_eq hc' hI' (fun _ _ => id) image t
    rw [ht, List.filterMap_cons_none rfl] at hbefore
    obtain ⟨call, hcall, _⟩ := popped_attributed hc' hI' ht'
    have hpop : openDocument h c'.shared image (.act (.setCallCaller p n none) resume') =
        if h.image p = image then some call.caller.text else none := by
      simp only [openDocument, Prog.pending_act, hcall, Option.map_some]
    rw [ht'] at hafter
    obtain rfl := he
    by_cases hi : h.image p = image
    · subst hi
      rw [List.filterMap_cons_some (hpop.trans (if_pos rfl))] at hafter
      rw [setCallCaller_callers, hafter, hbefore, List.tail_cons]
    · rw [List.filterMap_cons_none (hpop.trans (if_neg hi))] at hafter
      rw [setCallCaller_others (.inl (Ne.symm hi)), hafter, hbefore]

end

def appCaller : CallerDoc := ⟨"\x7b\"kind\":\"module\",\"name\":\"app\"\x7d", by decide, by decide⟩

theorem callers_attributed_dispatching :
    ∃ c, (∃ method dumped resume rest,
        c.stack 0 = .act (.dispatch 0 0 method dumped) resume :: rest) ∧
      CallersAttributed (plainHost false) c := by
  let call : GlueProg Unit := deliver (plainHost false) 0 (some appCaller) "run" []
  have hrun : ∃ method dumped resume w', Advances (glueExec (plainHost false) 0) {} call
      (.act (.dispatch 0 0 method dumped) resume) w' :=
    ⟨_, _, _, _, .act (r := none) ⟨rfl, rfl⟩ (.act (r := 0) ⟨rfl, rfl⟩
      (.act (r := some appCaller.text) ⟨rfl, rfl⟩ (.act (r := ()) rfl (.refl _ _))))⟩
  obtain ⟨method, dumped, resume, w', hrun⟩ := hrun
  have h₀ := Reachable.refl (glueSystem (plainHost false)) {}
  have h₁ := h₀.step (.enter (t := 0) (p := call) rfl (.deliver 0 (some appCaller) "run" []
    fun _ hmem => absurd hmem (by simp)))
  have h₂ := h₁.advance (t := 0) (p := call) rfl hrun
  exact ⟨_, ⟨method, dumped, resume, [], rfl⟩, callers_attributed rfl h₂⟩

end LogosPluginQt
