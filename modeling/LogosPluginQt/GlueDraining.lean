import LogosPluginQt.Draining
import LogosPluginQt.GlueDeferred

namespace LogosPluginQt
open Interleaving Glue GlueWorld DeferredPhase Relation
set_option autoImplicit true

/-- A step in which nothing comes in: a thread goes on or is left, or a worker takes a task. -/
inductive Onward (h : GlueHost) : GlueConfig → GlueConfig → Prop where
  | run {c : GlueConfig} {t : Nat} {a : GlueAction} {next : a.Ans → GlueProg Unit}
      {rest : List (GlueProg Unit)} {r : a.Ans} {w : GlueWorld} :
      c.stack t = .act a next :: rest → glueExec h t c.shared a r w →
      Onward h c ⟨w, Function.update c.stack t (next r :: rest)⟩
  | leave {c : GlueConfig} {t : Nat} {x : Unit} {rest : List (GlueProg Unit)} :
      c.stack t = .ret x :: rest → Onward h c ⟨c.shared, Function.update c.stack t rest⟩
  | work {c : GlueConfig} {t p : Nat} {before after : List GlueTask} {task : GlueTask} :
      c.stack t = [] → c.shared.queue p = before ++ task :: after →
      (c.shared.busy p).length < h.workers p →
      Onward h c ⟨c.shared.takeTask p t (before ++ after),
        Function.update c.stack t [runTask h p task]⟩

theorem Onward.step {h : GlueHost} {c c' : GlueConfig} (ho : Onward h c c') :
    Step (glueSystem h) c c' := by
  cases ho with
  | run hp he => exact .run hp he
  | leave hp => exact .leave hp
  | work hp hq hb => exact .enter hp (.work _ _ _ hq hb)

namespace GlueAction

def startsOrEnds : GlueAction → Bool
  | .startTask _ _ | .terminate => true
  | _ => false

end GlueAction

instance (a : GlueAction) : Nonempty a.Ans := by
  cases a <;> exact ⟨default⟩

section
variable {h : GlueHost}

theorem workerReply_avoids {bad : GlueAction → Prop} {p : Nat} (hbad : ¬ bad (.getMethods p))
    (task : GlueTask) (result : Option (List UInt8)) :
    (workerReply h p task result).Avoids bad := by
  cases result with
  | none =>
    refine Prog.avoids_bind (p := lidlNullReply h p _ _) ?_
      (Prog.returns_of_forall (fun _ => trivial) _)
    unfold lidlNullReply
    split
    · trivial
    · refine ⟨hbad, fun json => ?_⟩
      cases json with
      | none => trivial
      | some text =>
        simp only [Prog.bind]
        split
        · split <;> trivial
        · trivial
  | some text =>
    simp only [workerReply]
    split
    · trivial
    · split
      · split <;> trivial
      · trivial

/-- Only a result method's reply can throw. -/
theorem workerReply_ok {p : Nat} (hm : (h.provider p).module.resultMethods = [])
    (task : GlueTask) (result : Option (List UInt8)) :
    (workerReply h p task result).Returns fun value => ∃ v, value = .ok v := by
  cases result with
  | none => exact Prog.returns_bind.2 (Prog.returns_of_forall (fun v => ⟨v, rfl⟩) _)
  | some text =>
    simp only [workerReply, hm, List.isEmpty_nil, Bool.not_true, Bool.false_eq_true, ↓reduceIte]
    split
    · exact ⟨_, rfl⟩
    · split
      · split <;> exact ⟨_, rfl⟩
      · exact ⟨_, rfl⟩

/-- A worker's task queues nothing and, unless its reply handling throws, ends nothing. -/
theorem runTask_avoids {bad : GlueAction → Prop} (p : Nat) (task : GlueTask)
    (hbad : ∀ a, bad a → a.startsOrEnds = true)
    (hends : ∀ result, (workerReply h p task result).Returns fun value =>
      (∃ v, value = .ok v) ∨ ¬ bad .terminate) :
    (runTask h p task).Avoids bad := by
  have hok {a : GlueAction} (ha : a.startsOrEnds = false) : ¬ bad a :=
    fun hb => Bool.false_ne_true (ha.symm.trans (hbad a hb))
  have hdispatch : (workerDispatch h p task).Avoids bad := by
    unfold workerDispatch
    split
    · exact ⟨hok rfl, fun _ => ⟨hok rfl, fun _ => ⟨hok rfl,
        fun _ => trivial⟩⟩⟩
    · exact ⟨hok rfl, fun _ => trivial⟩
  have hfinish : (perform (.finishTask p)).Avoids bad := ⟨hok rfl, fun _ => trivial⟩
  apply Prog.avoids_bind (p := workerDispatch h p task) hdispatch
  apply Prog.returns_of_forall
  intro result
  apply Prog.avoids_bind (p := workerReply h p task result)
    (workerReply_avoids (hok rfl) task result)
  apply (hends result).mono
  intro value hvalue
  apply Prog.avoids_bind (p := complete task value)
  · cases value with
    | error => exact ⟨hvalue.resolve_left nofun, fun _ => trivial⟩
    | ok value =>
      cases hl : task.eventCb with
      | some listener =>
        simp only [complete, hl]
        exact ⟨hok rfl, fun _ => trivial⟩
      | none =>
        simp only [complete, hl]
        trivial
  · exact Prog.returns_of_forall (fun _ => hfinish) _

end

namespace DeferredPhase

/-- The frame has yet to copy the callback for call `n`. -/
def Copying (n : Nat) : DeferredPhase → Prop
  | .entered _ m | .drawn _ m _ => m = n
  | _ => False

def WorksFor (p : Nat) : DeferredPhase → Prop
  | .working q _ | .completed q _ => q = p
  | _ => False

theorem Copying.stays {κ : DeferredPhase} {n : Nat} (hκ : κ.Copying n) :
    ¬ κ.Waiting ∧ ¬ κ.mayReturn := by
  cases κ with
  | entered | drawn => exact ⟨id, id⟩
  | _ => cases hκ

theorem WorksFor.stays {κ : DeferredPhase} {p : Nat} (hκ : κ.WorksFor p) :
    ¬ κ.mayReturn := by
  cases κ with
  | working | completed => exact id
  | _ => cases hκ

end DeferredPhase

structure Owned (w : GlueWorld) (φ : Nat → List DeferredPhase) : Prop where
  copying : ∀ n ∈ w.copying, ∃ t κ rest, φ t = κ :: rest ∧ κ.Copying n
  busy : ∀ p, ∀ t ∈ w.busy p, ∃ κ ∈ φ t, κ.WorksFor p

section
variable {h : GlueHost} {w w' : GlueWorld} {t : Nat} {κ κ' : DeferredPhase}
  {φ : Nat → List DeferredPhase} {rest : List DeferredPhase}

theorem Owned.run (hI : Owned w φ) (hφ : φ t = κ :: rest)
    (hcopy : ∀ n ∈ w'.copying, ¬ κ'.Copying n → n ∈ w.copying ∧ ¬ κ.Copying n)
    (hbusy : ∀ p, ∀ u ∈ w'.busy p,
      u ∈ w.busy p ∧ (u = t → κ.WorksFor p → κ'.WorksFor p)) :
    Owned w' (Function.update φ t (κ' :: rest)) := by
  constructor
  · intro n hn
    by_cases hκ' : κ'.Copying n
    · exact ⟨t, κ', rest, Function.update_self .., hκ'⟩
    · obtain ⟨hmem, hκ⟩ := hcopy n hn hκ'
      obtain ⟨u, κu, restu, hu, hκu⟩ := hI.copying n hmem
      refine ⟨u, κu, restu, ?_, hκu⟩
      rw [Function.update_of_ne, hu]
      rintro rfl
      rw [hφ] at hu
      obtain rfl := (List.cons.inj hu).1
      exact hκ hκu
  · intro p u hu
    obtain ⟨hmem, hworks⟩ := hbusy p u hu
    obtain ⟨κu, hκu, hpu⟩ := hI.busy p u hmem
    by_cases hut : u = t
    · subst hut
      rw [Function.update_self]
      rw [hφ] at hκu
      obtain rfl | hκu := List.mem_cons.1 hκu
      · exact ⟨κ', List.mem_cons_self .., hworks rfl hpu⟩
      · exact ⟨κu, List.mem_cons_of_mem _ hκu, hpu⟩
    · rw [Function.update_of_ne hut]
      exact ⟨κu, hκu, hpu⟩

theorem Owned.keep (hI : Owned w φ) (hφ : φ t = κ :: rest) (hc : w'.copying = w.copying)
    (hb : w'.busy = w.busy) (hcopy : ∀ n, κ.Copying n → κ'.Copying n)
    (hworks : ∀ p, κ.WorksFor p → κ'.WorksFor p) :
    Owned w' (Function.update φ t (κ' :: rest)) := by
  refine hI.run hφ ?_ ?_
  · exact fun n hn hκ' => ⟨hc ▸ hn, fun hκ => hκ' (hcopy n hκ)⟩
  · exact fun p u hu => ⟨hb ▸ hu, fun _ => hworks p⟩

theorem Owned.finish (hI : Owned w φ) (hφ : φ t = κ :: rest) {p : Nat}
    (hκ : ∀ n, ¬ κ.Copying n) (hworks : ∀ q, κ.WorksFor q → q = p) :
    Owned (w.finishTask p t) (Function.update φ t (.outside :: rest)) := by
  refine hI.run hφ (fun n hn _ => ⟨hn, hκ n⟩) ?_
  intro q u hu
  by_cases hq : q = p
  · subst hq
    simp only [finishTask, Function.update_self] at hu
    obtain ⟨hmem, hne⟩ := List.mem_filter.1 hu
    exact ⟨hmem, fun he => absurd he (of_decide_eq_true hne)⟩
  · simp only [finishTask, Function.update_of_ne hq] at hu
    exact ⟨hu, fun _ hκq => absurd (hworks q hκq) hq⟩

theorem Owned.of_move {a : GlueAction} {r : a.Ans} (hI : Owned w φ) (hφ : φ t = κ :: rest)
    (hm : Move h κ a r κ') (he : glueExec h t w a r w') :
    Owned w' (Function.update φ t (κ' :: rest)) := by
  cases hm with
  | openScope | listen | pull | pull' =>
    obtain ⟨_, rfl⟩ := he
    exact hI.keep hφ rfl rfl (fun _ => id) fun _ => id
  | closeScope | unwind | tell | list | dispatch | tell' | list' | dispatch' =>
    obtain rfl := he
    exact hI.keep hφ rfl rfl (fun _ => id) fun _ => id
  | returned | queue | returned' =>
    obtain rfl := he
    exact hI.keep hφ rfl rfl nofun nofun
  | enter p d n =>
    obtain ⟨rfl, rfl⟩ := he
    refine hI.run hφ ?_ fun p u hu => ⟨hu, nofun⟩
    intro n hn hκ'
    cases d with
    | false => exact ⟨hn, id⟩
    | true =>
      obtain rfl | hn := List.mem_cons.1 hn
      · exact absurd rfl hκ'
      · exact ⟨hn, id⟩
  | draw p n r =>
    obtain ⟨_, rfl⟩ := he
    exact hI.keep hφ rfl rfl (fun _ => id) nofun
  | copy p n id r =>
    obtain ⟨_, rfl⟩ := he
    refine hI.run hφ ?_ fun p u hu => ⟨hu, nofun⟩
    intro m hm _
    obtain ⟨hmem, hne⟩ := List.mem_filter.1 hm
    exact ⟨hmem, fun he => of_decide_eq_true hne he.symm⟩
  | terminate => cases he
  | complete p task l v r hl =>
    obtain rfl := he
    exact hI.keep hφ rfl rfl nofun fun _ => id
  | dead =>
    obtain rfl := he
    exact hI.finish hφ nofun nofun
  | finish | finish' =>
    obtain rfl := he
    exact hI.finish hφ nofun fun _ => Eq.symm

theorem Owned.leave (hI : Owned w φ) (hφ : φ t = κ :: rest) (hκ : κ.mayReturn) :
    Owned w (Function.update φ t rest) := by
  constructor
  · intro n hn
    obtain ⟨u, κu, restu, hu, hκu⟩ := hI.copying n hn
    refine ⟨u, κu, restu, ?_, hκu⟩
    rw [Function.update_of_ne, hu]
    rintro rfl
    rw [hφ] at hu
    obtain rfl := (List.cons.inj hu).1
    exact hκu.stays.2 hκ
  · intro p u hu
    obtain ⟨κu, hκu, hpu⟩ := hI.busy p u hu
    refine ⟨κu, mem_update_of hκu ?_, hpu⟩
    rintro rfl
    rw [hφ] at hκu
    obtain rfl | hκu := List.mem_cons.1 hκu
    · exact absurd hκ hpu.stays
    · exact hκu

theorem Owned.push (hI : Owned w φ) (hw : ∀ κ ∈ (φ t).head?, κ.Waiting)
    (hc : w'.copying = w.copying)
    (hb : ∀ p, ∀ u ∈ w'.busy p, u ∈ w.busy p ∨ u = t ∧ κ.WorksFor p) :
    Owned w' (Function.update φ t (κ :: φ t)) := by
  constructor
  · intro n hn
    obtain ⟨u, κu, restu, hu, hκu⟩ := hI.copying n (hc ▸ hn)
    refine ⟨u, κu, restu, ?_, hκu⟩
    rw [Function.update_of_ne, hu]
    rintro rfl
    exact hκu.stays.1 (hw κu (by rw [hu]; rfl))
  · intro p u hu
    obtain hmem | ⟨rfl, hκ⟩ := hb p u hu
    · obtain ⟨κu, hκu, hpu⟩ := hI.busy p u hmem
      refine ⟨κu, mem_update_of hκu ?_, hpu⟩
      rintro rfl
      exact List.mem_cons_of_mem _ hκu
    · refine ⟨κ, ?_, hκ⟩
      rw [Function.update_self]
      exact List.mem_cons_self ..

theorem Owned.initial : Owned {} fun _ => [] where
  copying _ hmem := absurd hmem List.not_mem_nil
  busy _ _ hmem := absurd hmem List.not_mem_nil

/-- A call ends no process: only a worker's lambda can. -/
theorem call_avoids {prog : GlueProg Unit} {κ : DeferredPhase}
    (hf : Follows (next h) (fun _ κ => κ.mayReturn) prog κ) (hκ : ¬ κ.AtWork) :
    prog.Avoids (· = GlueAction.terminate) := by
  refine hf.avoids (J := fun κ => ¬ κ.AtWork) ?_ hκ
  intro κ a r κ' hκ hn
  cases next_move hn with
  | tell' | list' | terminate | dispatch' | complete | finish | finish' =>
    exact absurd trivial hκ
  | enter p d n =>
    refine ⟨nofun, ?_⟩
    cases d <;> exact id
  | _ => exact ⟨nofun, id⟩

theorem GlueEnter.avoids {within : Option GlueAction} {prog : GlueProg Unit}
    (he : GlueEnter h t w within prog w')
    (hm : ∀ p, (h.provider p).module.resultMethods = []) :
    prog.Avoids (· = GlueAction.terminate) := by
  cases he with
  | receive p methodName args => exact call_avoids (receive_keeps methodName args) id
  | deliver p scope methodName args => exact call_avoids (deliver_keeps scope methodName args) id
  | setEventListener p listener => exact ⟨nofun, fun _ => trivial⟩
  | @work p before after task hq hb =>
    refine runTask_avoids p task ?_ fun result => ?_
    · rintro a rfl
      rfl
    · exact (workerReply_ok (hm p) task result).mono fun _ => .inl

variable {c : GlueConfig}

end

end LogosPluginQt
