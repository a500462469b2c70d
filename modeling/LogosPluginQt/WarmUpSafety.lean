import Mathlib.Data.Fintype.EquivFin
import Mathlib.Data.List.Perm.Subperm
import LogosPluginQt.WarmUp

namespace LogosPluginQt
open Interleaving WarmUpPhase
set_option autoImplicit true

def Station.next : Station → Option Station
  | .taken => some .entered
  | .entered => some .passed
  | .passed => some .finished
  | .finished => some .ended
  | .ended => none

theorem Station.next_inj {s s' q q' : Station} (hs : s.next = some s') (hq : q.next = some q') :
    q' = s' ↔ s = q := by
  cases s <;> cases hs <;> cases q <;> cases hq <;> decide

theorem Station.next_ne_taken {s s' : Station} (hs : s.next = some s') : s' ≠ .taken := by
  rintro rfl
  cases s <;> cases hs

namespace WarmUpPhase

def left (n : Nat) : WarmUpPhase → Nat
  | .configure | .expiry => n
  | .starting left => left
  | _ => 0

def gathered (n : Nat) : WarmUpPhase → Nat
  | .opening | .closing | .returning => n
  | _ => 0

def opened (n : Nat) : WarmUpPhase → Nat
  | .closing | .returning => n
  | _ => 0

def collected (n : Nat) : WarmUpPhase → Nat
  | .returning => n
  | _ => 0

end WarmUpPhase

section
variable {n : Nat} {w w' : WarmUpWorld} {φ : Nat → List WarmUpPhase} {κ κ' : WarmUpPhase}
  {s s' : Station} {t : Nat} {rest : List WarmUpPhase}

def position (w : WarmUpWorld) (frames : List WarmUpPhase) : WarmUpPhase :=
  frames.headD (if w.constructed then .returning else .configure)

structure Accounts (n : Nat) (κ : WarmUpPhase) (w : WarmUpWorld) : Prop where
  tasks : (w.reached .taken).length + w.queued + κ.left n = n
  active : w.active ≤ (w.reached .taken).length
  pool : κ ≠ .configure → w.maxThreadCount = n
  entered : w.available .entered + κ.gathered n = (w.reached .entered).length
  release : w.available .release + (w.reached .passed).length = κ.opened n
  finished : w.available .finished + κ.collected n = (w.reached .finished).length

/-- A thread that has been at one station more often than at the next has a task between them. -/
def Stations (w : WarmUpWorld) (φ : Nat → List WarmUpPhase) : Prop :=
  ∀ t s s', s.next = some s' →
    (w.reached s).count t = (w.reached s').count t + (φ t).count (.task s)

structure WarmUpInvariant (n : Nat) (w : WarmUpWorld) (φ : Nat → List WarmUpPhase) : Prop where
  accounts : Accounts n (position w (φ 0)) w
  stations : Stations w φ
  once : (w.reached .taken).Nodup
  caller : 0 ∉ w.reached .taken
  alone : ∀ t, (φ t).length ≤ 1
  constructing : ∀ κ ∈ φ 0, κ.constructs = true ∧ w.constructed = true
  working : ∀ t, t ≠ 0 → ∀ κ ∈ φ t, κ.constructs = false

theorem Stations.count_le (h : Stations w φ) (hs : s.next = some s') (t : Nat) :
    (w.reached s').count t ≤ (w.reached s).count t := by
  rw [h t s s' hs]
  exact Nat.le_add_right _ _

theorem Stations.length_le (h : Stations w φ) (hs : s.next = some s') :
    (w.reached s').length ≤ (w.reached s).length :=
  (List.subperm_iff_count.2 (h.count_le hs)).length_le

/-- Where fewer have reached the next station, some thread is on its way to it. -/
theorem Stations.exists_task (h : Stations w φ) (hs : s.next = some s')
    (hlt : (w.reached s').length < (w.reached s).length) : ∃ t, .task s ∈ φ t := by
  by_contra hnone
  have hcount (t : Nat) : (w.reached s).count t ≤ (w.reached s').count t := by
    rw [h t s s' hs, List.count_eq_zero_of_not_mem fun hmem => hnone ⟨t, hmem⟩]
    exact Nat.le_refl _
  have hle := (List.subperm_iff_count.2 hcount).length_le
  omega

theorem count_arrive (w : WarmUpWorld) (t u : Nat) (s q : Station) :
    ((w.arrive t s).reached q).count u =
      (w.reached q).count u + if q = s ∧ t = u then 1 else 0 := by
  by_cases hq : q = s
  · subst q
    by_cases hu : t = u
    · subst u
      simp only [WarmUpWorld.arrive, Function.update_self, List.count_cons_self, and_self,
        ↓reduceIte]
    · simp only [WarmUpWorld.arrive, Function.update_self, List.count_cons_of_ne hu, hu, and_false,
        ↓reduceIte, Nat.add_zero]
  · simp only [WarmUpWorld.arrive, Function.update_of_ne hq, hq, false_and, ↓reduceIte,
      Nat.add_zero]

theorem length_arrive (w : WarmUpWorld) (t : Nat) (s q : Station) :
    ((w.arrive t s).reached q).length = (w.reached q).length + if q = s then 1 else 0 := by
  by_cases hq : q = s
  · subst q
    simp only [WarmUpWorld.arrive, Function.update_self, List.length_cons, ↓reduceIte]
  · simp only [WarmUpWorld.arrive, Function.update_of_ne hq, hq, ↓reduceIte, Nat.add_zero]

theorem count_moved (ht : φ t = κ :: rest) (u : Nat) (κ' μ : WarmUpPhase) :
    (Function.update φ t (κ' :: rest) u).count μ + (if κ = μ ∧ t = u then 1 else 0) =
      (φ u).count μ + if κ' = μ ∧ t = u then 1 else 0 := by
  by_cases hu : t = u
  · subst u
    rw [Function.update_self, ht, List.count_cons, List.count_cons]
    simp only [beq_iff_eq, and_true]
    omega
  · rw [Function.update_of_ne (Ne.symm hu), if_neg fun h => hu h.2, if_neg fun h => hu h.2]

theorem Stations.advance (h : Stations w φ) (hs : s.next = some s') (ht : φ t = .task s :: rest) :
    Stations (w.arrive t s') (Function.update φ t (.task s' :: rest)) := by
  intro u q q' hq
  have hold := h u q q' hq
  have hmoved := count_moved ht u (.task s') (.task q)
  rw [count_arrive, count_arrive]
  simp only [task.injEq, Station.next_inj hs hq, eq_comm (a := q) (b := s')] at hmoved ⊢
  omega

theorem Stations.take (h : Stations w φ) (ht : φ t = []) :
    Stations (w.take t) (Function.update φ t [.task .taken]) := by
  intro u q q' hq
  have hold := h u q q' hq
  have hlast : q' ≠ .taken := Station.next_ne_taken hq
  have hframes : (Function.update φ t [WarmUpPhase.task .taken] u).count (.task q) =
      (φ u).count (.task q) + if q = .taken ∧ t = u then 1 else 0 := by
    by_cases hu : t = u
    · subst u
      rw [Function.update_self, ht, List.count_singleton, List.count_nil]
      simp only [beq_iff_eq, task.injEq, eq_comm (a := q) (b := Station.taken), and_true,
        Nat.zero_add]
    · rw [Function.update_of_ne (Ne.symm hu), if_neg fun h => hu h.2, Nat.add_zero]
  have hnext : ¬ (q' = .taken ∧ t = u) := fun h => hlast h.1
  rw [WarmUpWorld.take, count_arrive, count_arrive, hframes, if_neg hnext]
  dsimp only
  omega

theorem Stations.keep (h : Stations w φ) (hreached : w'.reached = w.reached) : Stations w' φ := by
  intro t s s' hs
  rw [hreached]
  exact h t s s' hs

theorem Stations.update (h : Stations w φ) {κs : List WarmUpPhase}
    (hold : ∀ s s', s.next = some s' → .task s ∉ φ t)
    (hnew : ∀ s s', s.next = some s' → .task s ∉ κs) :
    Stations w (Function.update φ t κs) := by
  intro u s s' hs
  have hcount := h u s s' hs
  by_cases hu : u = t
  · subst u
    rw [List.count_eq_zero_of_not_mem (hold s s' hs)] at hcount
    rw [Function.update_self, List.count_eq_zero_of_not_mem (hnew s s' hs)]
    exact hcount
  · rw [Function.update_of_ne hu]
    exact hcount

theorem available_setAvailable (w : WarmUpWorld) (s q : WarmUpSemaphore) (m : Nat) :
    (w.setAvailable s m).available q = if q = s then m else w.available q :=
  Function.update_apply ..

@[simp] theorem reached_setAvailable (w : WarmUpWorld) (s : WarmUpSemaphore) (m : Nat) :
    (w.setAvailable s m).reached = w.reached := rfl

@[simp] theorem available_arrive (w : WarmUpWorld) (t : Nat) (s : Station) :
    (w.arrive t s).available = w.available := rfl

theorem Accounts.construct {a : WarmUpAction} (h : Accounts n κ w) (hm : Move n κ a κ')
    (hκ : κ.constructs = true) (he : warmUpExec 0 w a () w') :
    Accounts n κ' w' ∧ w'.reached = w.reached ∧ w'.constructed = w.constructed := by
  obtain ⟨htasks, hactive, hpool, hentered, hrelease, hfinished⟩ := h
  cases hm with
  | configure =>
    obtain rfl := he
    exact ⟨⟨htasks, hactive, fun _ => rfl, hentered, hrelease, hfinished⟩, rfl, rfl⟩
  | expiry =>
    obtain rfl := he
    exact ⟨⟨htasks, hactive, fun _ => hpool nofun, hentered, hrelease, hfinished⟩, rfl, rfl⟩
  | start left =>
    obtain rfl := he
    refine ⟨⟨?_, hactive, fun _ => hpool nofun, hentered, hrelease, hfinished⟩, rfl, rfl⟩
    simp only [WarmUpPhase.left] at htasks ⊢
    omega
  | gather =>
    obtain ⟨hle, rfl⟩ := he
    refine ⟨⟨htasks, hactive, fun _ => hpool nofun, ?_, hrelease, hfinished⟩, rfl, rfl⟩
    simp only [gathered, WarmUpWorld.note, available_setAvailable, reached_setAvailable,
      ↓reduceIte] at hentered ⊢
    omega
  | letPass =>
    obtain rfl := he
    refine ⟨⟨htasks, hactive, fun _ => hpool nofun, hentered, ?_, hfinished⟩, rfl, rfl⟩
    simp only [opened, WarmUpWorld.note, available_setAvailable, reached_setAvailable,
      ↓reduceIte] at hrelease ⊢
    omega
  | collect =>
    obtain ⟨hle, rfl⟩ := he
    refine ⟨⟨htasks, hactive, fun _ => hpool nofun, hentered, hrelease, ?_⟩, rfl, rfl⟩
    simp only [collected, WarmUpWorld.note, available_setAvailable, reached_setAvailable,
      ↓reduceIte] at hfinished ⊢
    omega
  | enter | pass | finish | endTask => cases hκ

theorem Accounts.work {a : WarmUpAction} {μ : WarmUpPhase} (h : Accounts n κ w)
    (hm : Move n (.task s) a μ) (he : warmUpExec t w a () w') :
    Accounts n κ w' ∧ w'.constructed = w.constructed ∧
      ∃ s', μ = .task s' ∧ s.next = some s' ∧ w'.reached = (w.arrive t s').reached := by
  obtain ⟨htasks, hactive, hpool, hentered, hrelease, hfinished⟩ := h
  cases hm with
  | enter =>
    obtain rfl := he
    refine ⟨⟨htasks, hactive, hpool, ?_, hrelease, hfinished⟩, rfl, _, rfl, rfl, rfl⟩
    simp only [WarmUpWorld.note, length_arrive, available_arrive, available_setAvailable,
      reached_setAvailable, ↓reduceIte]
    omega
  | pass =>
    obtain ⟨hle, rfl⟩ := he
    refine ⟨⟨htasks, hactive, hpool, hentered, ?_, hfinished⟩, rfl, _, rfl, rfl, rfl⟩
    simp only [WarmUpWorld.note, length_arrive, available_arrive, available_setAvailable,
      reached_setAvailable, ↓reduceIte]
    omega
  | finish =>
    obtain rfl := he
    refine ⟨⟨htasks, hactive, hpool, hentered, hrelease, ?_⟩, rfl, _, rfl, rfl, rfl⟩
    simp only [WarmUpWorld.note, length_arrive, available_arrive, available_setAvailable,
      reached_setAvailable, ↓reduceIte]
    omega
  | endTask =>
    obtain rfl := he
    exact ⟨⟨htasks, Nat.le_trans (Nat.sub_le ..) hactive, hpool, hentered, hrelease, hfinished⟩,
      rfl, _, rfl, rfl, rfl⟩

theorem Accounts.take (h : Accounts n κ w) (hq : 0 < w.queued) : Accounts n κ (w.take t) := by
  obtain ⟨htasks, hactive, hpool, hentered, hrelease, hfinished⟩ := h
  have hlength := length_arrive { w with queued := w.queued - 1, active := w.active + 1 } t
    .taken .taken
  rw [if_pos rfl] at hlength
  dsimp only at hlength
  refine ⟨?_, ?_, hpool, hentered, hrelease, hfinished⟩
  · rw [WarmUpWorld.take, hlength]
    simp only [WarmUpWorld.arrive]
    omega
  · rw [WarmUpWorld.take, hlength]
    exact Nat.succ_le_succ hactive

theorem opened_gathered (h : κ.opened n ≠ 0) : κ.gathered n = n := by
  cases κ with
  | closing | returning => rfl
  | _ => exact absurd rfl h

/-- Once a task has passed, every task has entered, and none is queued. -/
theorem Accounts.all_entered (h : Accounts n κ w) (hst : Stations w φ)
    (hpassed : w.reached .passed ≠ []) : (w.reached .entered).length = n ∧ w.queued = 0 := by
  have hpos := List.length_pos_iff.2 hpassed
  have hgathered : κ.gathered n = n := by
    apply opened_gathered
    have hrelease := h.release
    omega
  have hentered := h.entered
  have htasks := h.tasks
  have hle := hst.length_le (s := .taken) rfl
  omega

theorem WarmUpInvariant.single (h : WarmUpInvariant n w φ) (hφ : φ t = κ :: rest) :
    rest = [] := by
  have hlength := h.alone t
  rw [hφ] at hlength
  exact List.length_eq_zero_iff.1 (Nat.le_zero.1 (Nat.le_of_succ_le_succ hlength))

theorem WarmUpInvariant.fresh (h : WarmUpInvariant n w φ) (hφ : φ t = [])
    (hq : 0 < w.queued) : t ∉ w.reached .taken := by
  intro hmem
  have hentered := h.stations t .taken _ rfl
  have hpassed := h.stations t .entered _ rfl
  rw [hφ, List.count_nil] at hentered hpassed
  have hpos := List.count_pos_iff.2 hmem
  have hmem' : t ∈ w.reached .passed := List.count_pos_iff.1 (by omega)
  have hnone := (h.accounts.all_entered h.stations (List.ne_nil_of_mem hmem')).2
  omega

theorem WarmUpPhase.Move.constructs {a : WarmUpAction} (h : Move n κ a κ') :
    κ'.constructs = κ.constructs := by
  cases h <;> rfl

theorem ne_task (h : κ.constructs = true) (s : Station) : κ ≠ .task s := by
  rintro rfl
  cases h

theorem alone_update (h : ∀ u, (φ u).length ≤ 1) {κs : List WarmUpPhase} (hκs : κs.length ≤ 1)
    (u : Nat) : (Function.update φ t κs u).length ≤ 1 := by
  by_cases hu : u = t
  · subst u
    rwa [Function.update_self]
  · rw [Function.update_of_ne hu]
    exact h u

theorem working_update (h : ∀ u, u ≠ 0 → ∀ μ ∈ φ u, μ.constructs = false)
    {κs : List WarmUpPhase} (hκs : t ≠ 0 → ∀ μ ∈ κs, μ.constructs = false) :
    ∀ u, u ≠ 0 → ∀ μ ∈ Function.update φ t κs u, μ.constructs = false := by
  intro u hu μ hμ
  obtain ⟨rfl, hmem⟩ | ⟨_, hmem⟩ := mem_update hμ
  · exact hκs hu μ hmem
  · exact h u hu μ hmem

theorem WarmUpInvariant.construct {a : WarmUpAction} (h : WarmUpInvariant n w φ)
    (hφ : φ 0 = κ :: rest) (hm : Move n κ a κ') (he : warmUpExec 0 w a () w') :
    WarmUpInvariant n w' (Function.update φ 0 (κ' :: rest)) := by
  obtain ⟨hκ, hconstructed⟩ := h.constructing κ (hφ ▸ List.mem_cons_self ..)
  obtain rfl := h.single hφ
  have haccounts := h.accounts
  rw [hφ] at haccounts
  obtain ⟨haccounts', hreached, hsame⟩ := haccounts.construct hm hκ he
  have hκ' : κ'.constructs = true := hm.constructs.trans hκ
  refine ⟨?_, ?_, hreached ▸ h.once, hreached ▸ h.caller, alone_update h.alone (Nat.le_refl 1),
    ?_, working_update h.working fun hne => absurd rfl hne⟩
  · rw [Function.update_self]
    exact haccounts'
  · refine (h.stations.update (fun s _ _ => ?_) fun s _ _ => ?_).keep hreached
    · rw [hφ]
      exact fun hmem => ne_task hκ s (List.mem_singleton.1 hmem).symm
    · exact fun hmem => ne_task hκ' s (List.mem_singleton.1 hmem).symm
  · rw [Function.update_self, hsame]
    intro μ hμ
    obtain rfl := List.mem_singleton.1 hμ
    exact ⟨hκ', hconstructed⟩

theorem WarmUpInvariant.work {a : WarmUpAction} (h : WarmUpInvariant n w φ) (ht : t ≠ 0)
    (hφ : φ t = κ :: rest) (hm : Move n κ a κ') (he : warmUpExec t w a () w') :
    WarmUpInvariant n w' (Function.update φ t (κ' :: rest)) := by
  have hκ := h.working t ht κ (hφ ▸ List.mem_cons_self ..)
  obtain rfl := h.single hφ
  cases κ with
  | task s =>
    obtain ⟨haccounts, hsame, s', rfl, hs, hreached⟩ := h.accounts.work hm he
    have htaken : w'.reached .taken = w.reached .taken := by
      rw [hreached]
      exact Function.update_of_ne (Station.next_ne_taken hs).symm ..
    refine ⟨?_, ?_, htaken ▸ h.once, htaken ▸ h.caller, alone_update h.alone (Nat.le_refl 1),
      ?_, working_update h.working fun _ μ hμ => ?_⟩
    · rw [Function.update_of_ne ht.symm, position, hsame]
      exact haccounts
    · exact (h.stations.advance hs hφ).keep hreached
    · rw [Function.update_of_ne ht.symm, hsame]
      exact h.constructing
    · obtain rfl := List.mem_singleton.1 hμ
      rfl
  | _ => cases hκ

theorem WarmUpInvariant.leave (h : WarmUpInvariant n w φ) (hφ : φ t = κ :: rest)
    (hκ : κ.mayReturn) : WarmUpInvariant n w (Function.update φ t rest) := by
  obtain rfl := h.single hφ
  have hframes (s s' : Station) (hs : s.next = some s') : WarmUpPhase.task s ∉ φ t := by
    rw [hφ]
    intro hmem
    obtain rfl := List.mem_singleton.1 hmem
    cases s with
    | ended => cases hs
    | _ => cases hκ
  have hstations := h.stations.update hframes fun _ _ _ => List.not_mem_nil
  refine ⟨?_, hstations, h.once, h.caller, alone_update h.alone (Nat.zero_le 1), ?_,
    working_update h.working fun _ _ => nofun⟩
  · by_cases ht : t = 0
    · subst t
      obtain ⟨hconstructs, hconstructed⟩ := h.constructing κ (hφ ▸ List.mem_cons_self ..)
      have haccounts := h.accounts
      rw [hφ] at haccounts
      rw [Function.update_self, position, hconstructed]
      cases κ with
      | returning => exact haccounts
      | task => cases hconstructs
      | _ => cases hκ
    · rw [Function.update_of_ne (Ne.symm ht)]
      exact h.accounts
  · intro μ hμ
    obtain ⟨_, hmem⟩ | ⟨_, hmem⟩ := mem_update hμ
    · cases hmem
    · exact h.constructing μ hmem

theorem WarmUpInvariant.begin (h : WarmUpInvariant n w φ) (hφ : φ 0 = [])
    (hw : w.constructed = false) :
    WarmUpInvariant n { w with constructed := true } (Function.update φ 0 [.configure]) := by
  have haccounts := h.accounts
  rw [hφ, position, hw] at haccounts
  refine ⟨?_, ?_, h.once, h.caller, alone_update h.alone (Nat.le_refl 1), ?_,
    working_update h.working fun hne => absurd rfl hne⟩
  · rw [Function.update_self]
    obtain ⟨htasks, hactive, hpool, hentered, hrelease, hfinished⟩ := haccounts
    exact ⟨htasks, hactive, hpool, hentered, hrelease, hfinished⟩
  · refine (h.stations.update (fun s _ _ => ?_) fun s _ _ => ?_).keep rfl
    · rw [hφ]
      exact List.not_mem_nil
    · exact fun hmem => nomatch List.mem_singleton.1 hmem
  · rw [Function.update_self]
    intro μ hμ
    obtain rfl := List.mem_singleton.1 hμ
    exact ⟨rfl, rfl⟩

theorem WarmUpInvariant.take (h : WarmUpInvariant n w φ) (ht : t ≠ 0) (hφ : φ t = [])
    (hq : 0 < w.queued) : WarmUpInvariant n (w.take t) (Function.update φ t [.task .taken]) := by
  have htaken : (w.take t).reached .taken = t :: w.reached .taken := by
    simp only [WarmUpWorld.take, WarmUpWorld.arrive, Function.update_self]
  refine ⟨?_, h.stations.take hφ, ?_, ?_, alone_update h.alone (Nat.le_refl 1), ?_,
    working_update h.working fun _ μ hμ => ?_⟩
  · rw [Function.update_of_ne ht.symm]
    exact h.accounts.take hq
  · rw [htaken]
    exact List.nodup_cons.2 ⟨h.fresh hφ hq, h.once⟩
  · rw [htaken]
    intro hmem
    rcases List.mem_cons.1 hmem with hzero | hmem
    · exact ht hzero.symm
    · exact h.caller hmem
  · rw [Function.update_of_ne ht.symm]
    exact h.constructing
  · obtain rfl := List.mem_singleton.1 hμ
    rfl

end

theorem warmUp_invariant {n : Nat} (hn : 0 < n) (idealThreadCount : Int) :
    PhaseInvariant (warmUpSystem n idealThreadCount) (next n) (fun _ κ => κ.mayReturn)
      (WarmUpInvariant n) where
  run {s s' φ t a r κ κ' rest} h hφ he hn' := by
    by_cases ht : t = 0
    · subst t
      exact h.construct hφ (next_move hn') he
    · exact h.work ht hφ (next_move hn') he
  leave h hφ hκ := h.leave hφ hκ
  enter h hφ he := by
    obtain ⟨_, ⟨rfl, hw, rfl, rfl⟩ | ⟨ht, hq, _, rfl, rfl⟩⟩ := he
    · exact ⟨.configure, constructProvider_follows hn idealThreadCount, h.begin hφ hw⟩
    · exact ⟨.task .taken, warmUpTask_follows n, h.take ht hφ hq⟩
  nest h hφ hallowed he := by
    obtain ⟨hnone, _⟩ := he
    cases hnone

theorem warmUp_reachable {n : Nat} (hn : 0 < n) {idealThreadCount : Int}
    {c : Config WarmUpAction.Ans Unit WarmUpWorld}
    (h : Reachable (warmUpSystem n idealThreadCount) (.initial idealThreadCount) c) :
    ∃ φ, Tracks (next n) (fun _ κ => κ.mayReturn) c φ ∧ WarmUpInvariant n c.shared φ := by
  refine (warmUp_invariant hn idealThreadCount).reachable ?_ h
  exact ⟨⟨Nat.zero_add n, Nat.le_refl 0, fun hne => absurd rfl hne, rfl, rfl, rfl⟩,
    fun _ _ _ _ => rfl, List.nodup_nil, List.not_mem_nil, fun _ => Nat.zero_le 1, nofun,
    fun _ _ => nofun⟩

section
variable {n : Nat} {idealThreadCount : Int} {c : Config WarmUpAction.Ans Unit WarmUpWorld}
  {φ : Nat → List WarmUpPhase} {s s' : Station} {t : Nat}

theorem Stations.mem_taken {w : WarmUpWorld} (h : Stations w φ) (hmem : .task s ∈ φ t)
    (hs : s.next = some s') : t ∈ w.reached .taken := by
  have hpos := List.count_pos_iff.2 hmem
  have hcount := h t s s' hs
  have htaken := h t .taken _ rfl
  have hentered := h t .entered _ rfl
  have hpassed := h t .passed _ rfl
  apply List.count_pos_iff.1
  cases s with
  | taken | entered | passed | finished => omega
  | ended => cases hs

theorem Stations.length_lt {w : WarmUpWorld} (h : Stations w φ) (hmem : .task s ∈ φ t)
    (hs : s.next = some s') : (w.reached s').length < (w.reached s).length := by
  by_contra hge
  have hperm := (List.subperm_iff_count.2 (h.count_le hs)).perm_of_length_le (Nat.not_lt.1 hge)
  have hsame := hperm.count_eq t
  have hcount := h t s s' hs
  have hpos := List.count_pos_iff.2 hmem
  omega

theorem WarmUpInvariant.frame {w : WarmUpWorld} (h : WarmUpInvariant n w φ)
    (hc : Tracks (next n) (fun _ κ => κ.mayReturn) c φ) (hmem : .task s ∈ φ t) :
    ∃ p, c.stack t = [p] ∧ Follows (next n) (fun _ κ => κ.mayReturn) p (.task s) := by
  have htracks := hc t
  cases hφ : φ t with
  | nil =>
    rw [hφ] at hmem
    cases hmem
  | cons κ rest =>
    obtain rfl := h.single hφ
    rw [hφ] at hmem htracks
    obtain rfl := List.mem_singleton.1 hmem
    obtain ⟨p, ps, hp, hps, hstack⟩ := List.forall₂_cons_right_iff.1 htracks
    cases hps
    exact ⟨p, hstack, hp⟩

theorem task_steps (hI : WarmUpInvariant n c.shared φ)
    (hc : Tracks (next n) (fun _ κ => κ.mayReturn) c φ) (hmem : .task s ∈ φ t)
    (hs : s.next = some s') (hready : s = .entered → 1 ≤ c.shared.available .release) :
    ∃ c', Step (warmUpSystem n idealThreadCount) c c' := by
  obtain ⟨p, hstack, hp⟩ := hI.frame hc hmem
  cases p with
  | ret x =>
    cases s with
    | ended => cases hs
    | _ => cases hp
  | act a resume =>
    obtain ⟨κ', hn, _⟩ := hp ()
    cases next_move hn with
    | enter | finish | endTask => exact ⟨_, .run (r := ()) hstack rfl⟩
    | pass => exact ⟨_, .run (r := ()) hstack ⟨hready rfl, rfl⟩⟩

theorem take_steps (hI : WarmUpInvariant n c.shared φ)
    (hc : Tracks (next n) (fun _ κ => κ.mayReturn) c φ) (hq : 0 < c.shared.queued)
    (hpool : c.shared.maxThreadCount = n) :
    ∃ c', Step (warmUpSystem n idealThreadCount) c c' := by
  obtain ⟨t, ht⟩ := Infinite.exists_notMem_finset (insert 0 (c.shared.reached .taken).toFinset)
  rw [Finset.mem_insert, List.mem_toFinset, not_or] at ht
  obtain ⟨hzero, htaken⟩ := ht
  have htasks := hI.accounts.tasks
  have hactive := hI.accounts.active
  have hroom : c.shared.active < c.shared.maxThreadCount := by omega
  cases hstack : c.stack t with
  | nil => exact ⟨_, .enter hstack ⟨rfl, .inr ⟨hzero, hq, hroom, rfl, rfl⟩⟩⟩
  | cons p rest =>
    obtain ⟨κ, κs, hφ, hp, _⟩ := hc.cons hstack
    have hmem : κ ∈ φ t := hφ ▸ List.mem_cons_self ..
    have hκ := hI.working t hzero κ hmem
    cases p with
    | ret x => exact ⟨_, .leave hstack⟩
    | act a resume =>
      obtain ⟨κ', hn, _⟩ := hp ()
      cases next_move hn with
      | enter | pass | finish | endTask =>
        exact absurd (hI.stations.mem_taken hmem rfl) htaken
      | _ => cases hκ

theorem gather_steps (hI : WarmUpInvariant n c.shared φ)
    (hc : Tracks (next n) (fun _ κ => κ.mayReturn) c φ)
    (haccounts : Accounts n (.starting 0) c.shared)
    (hwait : c.shared.available .entered < n) :
    ∃ c', Step (warmUpSystem n idealThreadCount) c c' := by
  obtain ⟨htasks, _, hpool, hentered, _, _⟩ := haccounts
  simp only [left, gathered] at htasks hentered
  by_cases hq : 0 < c.shared.queued
  · exact take_steps hI hc hq (hpool nofun)
  · obtain ⟨t, hmem⟩ := hI.stations.exists_task (s := .taken) rfl (by omega)
    exact task_steps hI hc hmem rfl nofun

theorem collect_steps (hI : WarmUpInvariant n c.shared φ)
    (hc : Tracks (next n) (fun _ κ => κ.mayReturn) c φ)
    (haccounts : Accounts n .closing c.shared) (hwait : c.shared.available .finished < n) :
    ∃ c', Step (warmUpSystem n idealThreadCount) c c' := by
  obtain ⟨_, _, _, hentered, hrelease, hfinished⟩ := haccounts
  simp only [gathered, opened, collected] at hentered hrelease hfinished
  by_cases hpassed : (c.shared.reached .finished).length < (c.shared.reached .passed).length
  · obtain ⟨t, hmem⟩ := hI.stations.exists_task (s := .passed) rfl hpassed
    exact task_steps hI hc hmem rfl nofun
  · obtain ⟨t, hmem⟩ := hI.stations.exists_task (s := .entered) rfl (by omega)
    exact task_steps hI hc hmem rfl fun _ => by omega

/-- As long as the constructor has not returned, something moves. -/
theorem constructor_steps (hI : WarmUpInvariant n c.shared φ)
    (hc : Tracks (next n) (fun _ κ => κ.mayReturn) c φ)
    (hrun : ¬ (c.shared.constructed = true ∧ c.stack 0 = [])) :
    ∃ c', Step (warmUpSystem n idealThreadCount) c c' := by
  cases hstack : c.stack 0 with
  | nil =>
    have hw : c.shared.constructed = false := by
      rw [← Bool.not_eq_true]
      exact fun h => hrun ⟨h, hstack⟩
    exact ⟨_, .enter hstack ⟨rfl, .inl ⟨rfl, hw, rfl, rfl⟩⟩⟩
  | cons p rest =>
    obtain ⟨κ, κs, hφ, hp, _⟩ := hc.cons hstack
    have hκ := (hI.constructing κ (hφ ▸ List.mem_cons_self ..)).1
    have haccounts := hI.accounts
    rw [hφ] at haccounts
    cases p with
    | ret x => exact ⟨_, .leave hstack⟩
    | act a resume =>
      obtain ⟨κ', hn, _⟩ := hp ()
      cases next_move hn with
      | configure | expiry | start | letPass => exact ⟨_, .run (r := ()) hstack rfl⟩
      | gather =>
        by_cases hready : n ≤ c.shared.available .entered
        · exact ⟨_, .run (r := ()) hstack ⟨hready, rfl⟩⟩
        · exact gather_steps hI hc haccounts (Nat.lt_of_not_le hready)
      | collect =>
        by_cases hready : n ≤ c.shared.available .finished
        · exact ⟨_, .run (r := ()) hstack ⟨hready, rfl⟩⟩
        · exact collect_steps hI hc haccounts (Nat.lt_of_not_le hready)
      | enter | pass | finish | endTask => cases hκ

def WarmUpAction.usesSemaphore : WarmUpAction → Bool
  | .acquire _ _ | .release _ _ => true
  | _ => false

theorem finished_quiet {p : WarmUpProg Unit}
    (hp : Follows (next n) (fun _ κ => κ.mayReturn) p (.task s))
    (hs : s = .finished ∨ s = .ended) {a : WarmUpAction} (ha : p.Performs a) :
    a.usesSemaphore = false := by
  induction p generalizing s with
  | ret x => cases ha
  | act b resume ih =>
    obtain ⟨κ', hn, hrest⟩ := hp ()
    cases next_move hn with
    | enter | pass =>
      rcases hs with hs | hs
      all_goals cases hs
    | finish =>
      rcases hs with hs | hs
      all_goals cases hs
    | endTask =>
      rcases Prog.performs_act.1 ha with rfl | ⟨_, hlater⟩
      · rfl
      · exact ih () hrest (.inr rfl) hlater

structure WarmUpSafe (n : Nat) (idealThreadCount : Int)
    (c : Config WarmUpAction.Ans Unit WarmUpWorld) : Prop where
  live : ¬ (c.shared.constructed = true ∧ c.stack 0 = []) →
    ∃ c', Step (warmUpSystem n idealThreadCount) c c'
  barrier : c.shared.reached .passed ≠ [] → (c.shared.reached .entered).length = n ∧
    (c.shared.reached .entered).Nodup ∧ 0 ∉ c.shared.reached .entered
  quiescent : c.shared.constructed = true → c.stack 0 = [] →
    c.shared.queued = 0 ∧ (c.shared.reached .finished).length = n ∧
      ∀ t, ∀ p ∈ c.stack t, ∀ a, p.Performs a → a.usesSemaphore = false

theorem WarmUpInvariant.entered_once {w : WarmUpWorld} (h : WarmUpInvariant n w φ) :
    (w.reached .entered).Nodup ∧ 0 ∉ w.reached .entered := by
  have hle := h.stations.count_le (s := .taken) rfl
  constructor
  · apply List.nodup_iff_count_le_one.2
    exact fun t => Nat.le_trans (hle t) (List.nodup_iff_count_le_one.1 h.once t)
  · intro hmem
    apply h.caller
    apply List.count_pos_iff.1
    exact Nat.lt_of_lt_of_le (List.count_pos_iff.2 hmem) (hle 0)

/-- When the constructor has returned, every task has finished. -/
theorem WarmUpInvariant.all_finished {w : WarmUpWorld} (h : WarmUpInvariant n w φ)
    (hφ : φ 0 = []) (hconstructed : w.constructed = true) :
    w.queued = 0 ∧ (w.reached .finished).length = n ∧ (w.reached .taken).length = n := by
  have haccounts := h.accounts
  rw [hφ, position, hconstructed] at haccounts
  have htasks := haccounts.tasks
  have hfinished : w.available .finished + n = (w.reached .finished).length := haccounts.finished
  have hentered := h.stations.length_le (s := .taken) rfl
  have hpassed := h.stations.length_le (s := .entered) rfl
  have hlast := h.stations.length_le (s := .passed) rfl
  omega

/-- The warm-up neither blocks nor lets a task pass early, and leaves nothing behind. -/
theorem warmUp_safe {n : Nat} (hn : 0 < n) {idealThreadCount : Int}
    {c : Config WarmUpAction.Ans Unit WarmUpWorld}
    (h : Reachable (warmUpSystem n idealThreadCount) (.initial idealThreadCount) c) :
    WarmUpSafe n idealThreadCount c := by
  obtain ⟨φ, hc, hI⟩ := warmUp_reachable hn h
  refine ⟨constructor_steps hI hc, fun hpassed => ?_, fun hconstructed hidle => ?_⟩
  · exact ⟨(hI.accounts.all_entered hI.stations hpassed).1, hI.entered_once⟩
  · obtain ⟨hqueued, hfinished, htaken⟩ := hI.all_finished (hc.nil hidle) hconstructed
    refine ⟨hqueued, hfinished, fun t p hp a ha => ?_⟩
    have ht : t ≠ 0 := by
      rintro rfl
      rw [hidle] at hp
      cases hp
    have hentered := hI.stations.length_le (s := .taken) rfl
    have hpassed := hI.stations.length_le (s := .entered) rfl
    have hlast := hI.stations.length_le (s := .passed) rfl
    obtain ⟨κ, hκ, hfollows⟩ := hc.mem hp
    cases κ with
    | task s =>
      refine finished_quiet hfollows ?_ ha
      cases s with
      | finished => exact .inl rfl
      | ended => exact .inr rfl
      -- fewer would have finished than have taken a task
      | taken | entered | passed =>
        have hlt := hI.stations.length_lt hκ rfl
        omega
    | _ => cases hI.working t ht _ hκ

end

/-- A provider with two workers, constructed: both are past the barrier, one after the other. -/
theorem warmUp_safe_two : ∃ c : Config WarmUpAction.Ans Unit WarmUpWorld,
    (c.shared.constructed = true ∧ c.stack 0 = [] ∧ c.shared.reached .passed = [1, 2]) ∧
      WarmUpSafe 2 4 c := by
  have h₀ := Reachable.refl (warmUpSystem (2 : Nat) 4) (.initial 4)
  have h₁ := h₀.step (.enter (t := 0) rfl ⟨rfl, .inl ⟨rfl, rfl, rfl, rfl⟩⟩)
  have h₂ := h₁.step (.run (t := 0) (r := ()) rfl rfl)
  have h₃ := h₂.step (.run (t := 0) (r := ()) rfl rfl)
  have h₄ := h₃.step (.run (t := 0) (r := ()) rfl rfl)
  have h₅ := h₄.step (.enter (t := 1) rfl
    ⟨rfl, .inr ⟨by decide, by decide, by decide, rfl, rfl⟩⟩)
  have h₆ := h₅.step (.run (t := 1) (r := ()) rfl rfl)
  have h₇ := h₆.step (.run (t := 0) (r := ()) rfl rfl)
  have h₈ := h₇.step (.enter (t := 2) rfl
    ⟨rfl, .inr ⟨by decide, by decide, by decide, rfl, rfl⟩⟩)
  have h₉ := h₈.step (.run (t := 2) (r := ()) rfl rfl)
  -- both have entered, and the constructor lets them pass
  have h₁₀ := h₉.step (.run (t := 0) (r := ()) rfl ⟨by decide, rfl⟩)
  have h₁₁ := h₁₀.step (.run (t := 0) (r := ()) rfl rfl)
  have h₁₂ := h₁₁.step (.run (t := 2) (r := ()) rfl ⟨by decide, rfl⟩)
  have h₁₃ := h₁₂.step (.run (t := 1) (r := ()) rfl ⟨by decide, rfl⟩)
  have h₁₄ := h₁₃.step (.run (t := 1) (r := ()) rfl rfl)
  have h₁₅ := h₁₄.step (.run (t := 2) (r := ()) rfl rfl)
  have h₁₆ := h₁₅.step (.run (t := 0) (r := ()) rfl ⟨by decide, rfl⟩)
  have h₁₇ := h₁₆.step (.leave (t := 0) rfl)
  exact ⟨_, ⟨rfl, rfl, rfl⟩, warmUp_safe (by decide) h₁₇⟩

end LogosPluginQt
