import Mathlib.Logic.Function.Basic
import Mathlib.Data.List.Basic

namespace ShellScript
set_option autoImplicit true

/-- A script under `set -e`, over a state its tests read: a program that fails ends it, and so
does an edit that cannot be made. -/
inductive Script (S T : Type) where
  | skip
  | exit (status : Nat)
  | run (tool : T)
  | edit (f : S → Option S)
  | seq (a b : Script S T)
  | ite (test : S → Bool) (a b : Script S T)

section
variable {S T ι : Type}

/-- A complete run, given what each program may answer and do: the script is done (`none`), or
has ended with a status. -/
inductive Exec (tool : T → S → Nat → S → Prop) : S → Script S T → Option Nat → S → Prop where
  | skip (s : S) : Exec tool s .skip none s
  | exit (s : S) (status : Nat) : Exec tool s (.exit status) (some status) s
  | run {s s' : S} {t : T} : tool t s 0 s' → Exec tool s (.run t) none s'
  | fail {s s' : S} {t : T} {status : Nat} : tool t s status s' → status ≠ 0 →
      Exec tool s (.run t) (some status) s'
  | edit {s s' : S} {f : S → Option S} : f s = some s' → Exec tool s (.edit f) none s'
  | refuse {s : S} {f : S → Option S} : f s = none → Exec tool s (.edit f) (some 1) s
  | seq {s s' s'' : S} {a b : Script S T} {o : Option Nat} : Exec tool s a none s' →
      Exec tool s' b o s'' → Exec tool s (.seq a b) o s''
  | stop {s s' : S} {a b : Script S T} {status : Nat} : Exec tool s a (some status) s' →
      Exec tool s (.seq a b) (some status) s'
  | yes {s s' : S} {test : S → Bool} {a b : Script S T} {o : Option Nat} : test s = true →
      Exec tool s a o s' → Exec tool s (.ite test a b) o s'
  | no {s s' : S} {test : S → Bool} {a b : Script S T} {o : Option Nat} : test s = false →
      Exec tool s b o s' → Exec tool s (.ite test a b) o s'

section
variable {tool : T → S → Nat → S → Prop} {s s' : S} {o : Option Nat} {a b : Script S T}

@[simp] theorem exec_skip_iff : Exec tool s .skip o s' ↔ o = none ∧ s' = s := by
  constructor
  · intro h
    cases h
    exact ⟨rfl, rfl⟩
  · rintro ⟨rfl, rfl⟩
    exact .skip s'

@[simp] theorem exec_exit_iff {status : Nat} :
    Exec tool s (.exit status) o s' ↔ o = some status ∧ s' = s := by
  constructor
  · intro h
    cases h
    exact ⟨rfl, rfl⟩
  · rintro ⟨rfl, rfl⟩
    exact .exit s' status

theorem exec_run_iff {t : T} : Exec tool s (.run t) o s' ↔
    (o = none ∧ tool t s 0 s') ∨ ∃ status, status ≠ 0 ∧ o = some status ∧ tool t s status s' := by
  constructor
  · intro h
    cases h with
    | run ht => exact .inl ⟨rfl, ht⟩
    | fail ht hne => exact .inr ⟨_, hne, rfl, ht⟩
  · rintro (⟨rfl, ht⟩ | ⟨status, hne, rfl, ht⟩)
    · exact .run ht
    · exact .fail ht hne

theorem exec_seq_iff : Exec tool s (.seq a b) o s' ↔
    (∃ m, Exec tool s a none m ∧ Exec tool m b o s') ∨
      ∃ status, o = some status ∧ Exec tool s a (some status) s' := by
  constructor
  · intro h
    cases h with
    | seq ha hb => exact .inl ⟨_, ha, hb⟩
    | stop ha => exact .inr ⟨_, rfl, ha⟩
  · rintro (⟨m, ha, hb⟩ | ⟨status, rfl, ha⟩)
    · exact .seq ha hb
    · exact .stop ha

theorem exec_ite_iff {test : S → Bool} : Exec tool s (.ite test a b) o s' ↔
    (test s = true ∧ Exec tool s a o s') ∨ (test s = false ∧ Exec tool s b o s') := by
  constructor
  · intro h
    cases h with
    | yes ht ha => exact .inl ⟨ht, ha⟩
    | no ht hb => exact .inr ⟨ht, hb⟩
  · rintro (⟨ht, ha⟩ | ⟨ht, hb⟩)
    · exact .yes ht ha
    · exact .no ht hb

theorem exec_ite_of_true {test : S → Bool} (ht : test s = true) :
    Exec tool s (.ite test a b) o s' ↔ Exec tool s a o s' := by
  rw [exec_ite_iff, ht]
  simp only [true_and, Bool.true_eq_false, false_and, or_false]

theorem exec_ite_of_false {test : S → Bool} (ht : test s = false) :
    Exec tool s (.ite test a b) o s' ↔ Exec tool s b o s' := by
  rw [exec_ite_iff, ht]
  simp only [true_and, Bool.false_eq_true, false_and, false_or]

end

namespace Script

/-- `if ! test; then exit status; fi`. -/
def require (test : S → Bool) (status : Nat) : Script S T := .ite test .skip (.exit status)

theorem exec_require_iff {tool : T → S → Nat → S → Prop} {s s' : S} {o : Option Nat}
    {test : S → Bool} {status : Nat} : Exec tool s (require test status) o s' ↔
      s' = s ∧ ((test s = true ∧ o = none) ∨ (test s = false ∧ o = some status)) := by
  rw [require, exec_ite_iff, exec_skip_iff, exec_exit_iff]
  constructor
  · rintro (⟨ht, rfl, rfl⟩ | ⟨ht, rfl, rfl⟩)
    · exact ⟨rfl, .inl ⟨ht, rfl⟩⟩
    · exact ⟨rfl, .inr ⟨ht, rfl⟩⟩
  · rintro ⟨rfl, ⟨ht, rfl⟩ | ⟨ht, rfl⟩⟩
    · exact .inl ⟨ht, rfl, rfl⟩
    · exact .inr ⟨ht, rfl, rfl⟩

def all (scripts : List (Script S T)) : Script S T := scripts.foldr .seq .skip

@[simp] theorem all_nil : all ([] : List (Script S T)) = .skip := rfl

@[simp] theorem all_cons (a : Script S T) (scripts : List (Script S T)) :
    all (a :: scripts) = .seq a (all scripts) := rfl

def Uses : Script S T → T → Prop
  | .run t, u => u = t
  | .seq a b, u | .ite _ a b, u => a.Uses u ∨ b.Uses u
  | _, _ => False

@[simp] theorem uses_run {t u : T} : (Script.run t : Script S T).Uses u ↔ u = t := Iff.rfl

@[simp] theorem uses_seq {a b : Script S T} {u : T} :
    (Script.seq a b).Uses u ↔ a.Uses u ∨ b.Uses u := Iff.rfl

@[simp] theorem uses_ite {test : S → Bool} {a b : Script S T} {u : T} :
    (Script.ite test a b).Uses u ↔ a.Uses u ∨ b.Uses u := Iff.rfl

@[simp] theorem not_uses_require {test : S → Bool} {status : Nat} {u : T} :
    ¬ (require test status : Script S T).Uses u := by
  rintro (h | h) <;> exact h

theorem uses_all {scripts : List (Script S T)} {u : T} :
    (all scripts).Uses u ↔ ∃ a ∈ scripts, a.Uses u := by
  induction scripts with
  | nil => exact iff_of_false id fun ⟨_, h, _⟩ => absurd h List.not_mem_nil
  | cons a scripts ih => rw [all_cons, uses_seq, ih, List.exists_mem_cons_iff]

end Script

open Script

/-- Whatever the programs answer: from `P`, the script is done only where `Q` holds and ends early
only where `E` does. -/
def Triple (tool : T → S → Nat → S → Prop) (P : S → Prop) (a : Script S T) (Q : S → Prop)
    (E : Nat → S → Prop) : Prop :=
  ∀ s o s', P s → Exec tool s a o s' → (o = none → Q s') ∧ ∀ status, o = some status → E status s'

variable {tool : T → S → Nat → S → Prop} {P P' Q Q' R : S → Prop} {E E' : Nat → S → Prop}
  {a b : Script S T}

theorem Triple.conseq (h : Triple tool P a Q E) (hP : ∀ s, P' s → P s) (hQ : ∀ s, Q s → Q' s)
    (hE : ∀ status s, E status s → E' status s) : Triple tool P' a Q' E' := by
  intro s o s' hs he
  obtain ⟨hdone, hexit⟩ := h s o s' (hP s hs) he
  exact ⟨fun ho => hQ s' (hdone ho), fun status ho => hE status s' (hexit status ho)⟩

theorem Triple.skip (h : ∀ s, P s → Q s) : Triple tool P .skip Q E := by
  intro s o s' hs he
  cases he
  exact ⟨fun _ => h s hs, nofun⟩

theorem Triple.exit {status : Nat} (h : ∀ s, P s → E status s) :
    Triple tool P (.exit status) Q E := by
  intro s o s' hs he
  cases he
  refine ⟨nofun, ?_⟩
  rintro _ ⟨⟩
  exact h s hs

theorem Triple.run {t : T} (h : ∀ s s', P s → tool t s 0 s' → Q s')
    (hfail : ∀ s status s', P s → tool t s status s' → status ≠ 0 → E status s') :
    Triple tool P (.run t) Q E := by
  intro s o s' hs he
  cases he with
  | run ht => exact ⟨fun _ => h s s' hs ht, nofun⟩
  | fail ht hne =>
    refine ⟨nofun, ?_⟩
    rintro _ ⟨⟩
    exact hfail s _ s' hs ht hne

theorem Triple.edit {f : S → Option S} (h : ∀ s s', P s → f s = some s' → Q s')
    (hrefuse : ∀ s, P s → f s = none → E 1 s) : Triple tool P (.edit f) Q E := by
  intro s o s' hs he
  cases he with
  | edit hf => exact ⟨fun _ => h s s' hs hf, nofun⟩
  | refuse hf =>
    refine ⟨nofun, ?_⟩
    rintro _ ⟨⟩
    exact hrefuse s hs hf

theorem Triple.seq (ha : Triple tool P a R E) (hb : Triple tool R b Q E) :
    Triple tool P (.seq a b) Q E := by
  intro s o s' hs he
  cases he with
  | seq h₁ h₂ => exact hb _ o s' ((ha s none _ hs h₁).1 rfl) h₂
  | stop h₁ =>
    refine ⟨nofun, ?_⟩
    rintro _ ⟨⟩
    exact (ha s _ s' hs h₁).2 _ rfl

theorem Triple.ite {test : S → Bool}
    (ha : Triple tool (fun s => P s ∧ test s = true) a Q E)
    (hb : Triple tool (fun s => P s ∧ test s = false) b Q E) :
    Triple tool P (.ite test a b) Q E := by
  intro s o s' hs he
  cases he with
  | yes ht h => exact ha s o s' ⟨hs, ht⟩ h
  | no ht h => exact hb s o s' ⟨hs, ht⟩ h

theorem Triple.require {test : S → Bool} {status : Nat}
    (h : ∀ s, P s → test s = true → Q s) (hexit : ∀ s, P s → test s = false → E status s) :
    Triple tool P (.require test status) Q E :=
  .ite (.skip fun s hs => h s hs.1 hs.2) (.exit fun s hs => hexit s hs.1 hs.2)

/-- What every script of a row keeps, the row keeps. -/
theorem Triple.all {scripts : List (Script S T)}
    (h : ∀ a ∈ scripts, Triple tool P a P E) : Triple tool P (.all scripts) P E := by
  induction scripts with
  | nil => exact .skip fun _ => id
  | cons a scripts ih =>
    obtain ⟨ha, hrest⟩ := List.forall_mem_cons.1 h
    exact .seq ha (ih hrest)

/-- Where each script of a row brings about its own fact and keeps those of the others, all of
them hold at the end. -/
theorem Triple.each {items : List ι} {script : ι → Script S T} {Φ : ι → S → Prop}
    (hown : ∀ i ∈ items, Triple tool P (script i) (fun s => P s ∧ Φ i s) E)
    (hkeep : ∀ i ∈ items, ∀ j ∈ items,
      Triple tool (fun s => P s ∧ Φ j s) (script i) (fun s => P s ∧ Φ j s) E) :
    Triple tool P (.all (items.map script)) (fun s => P s ∧ ∀ i ∈ items, Φ i s) E := by
  intro s o s' hs he
  have hP : Triple tool P (.all (items.map script)) P E := by
    apply Triple.all
    intro a ha
    obtain ⟨i, hi, rfl⟩ := List.mem_map.1 ha
    exact (hown i hi).conseq (fun _ => id) (fun _ => And.left) fun _ _ => id
  have hfact : ∀ j ∈ items, Triple tool P (.all (items.map script)) (fun s => P s ∧ Φ j s) E := by
    intro j hj
    obtain ⟨before, after, hsplit⟩ := List.append_of_mem hj
    clear hs he hP
    induction before generalizing items with
    | nil =>
      subst hsplit
      refine .seq (hown j (List.mem_cons_self ..)) (.all ?_)
      intro a ha
      obtain ⟨i, hi, rfl⟩ := List.mem_map.1 ha
      exact hkeep i (List.mem_cons_of_mem _ hi) j (List.mem_cons_self ..)
    | cons k before ih =>
      subst hsplit
      have hmem {i : ι} (hi : i ∈ before ++ j :: after) : i ∈ k :: (before ++ j :: after) :=
        List.mem_cons_of_mem _ hi
      refine .seq ((hown k (List.mem_cons_self ..)).conseq (fun _ => id) (fun _ => And.left)
        fun _ _ => id) ?_
      exact ih (fun i hi => hown i (hmem hi)) (fun i hi j' hj' => hkeep i (hmem hi) j' (hmem hj'))
        (List.mem_append_right _ (List.mem_cons_self ..)) rfl
  refine ⟨fun ho => ⟨(hP s o s' hs he).1 ho, fun j hj => ((hfact j hj s o s' hs he).1 ho).2⟩, ?_⟩
  exact (hP s o s' hs he).2

def Keeps (tool : T → S → Nat → S → Prop) (P : S → Prop) (a : Script S T) : Prop :=
  Triple tool P a P fun _ => P

theorem Keeps.skip : Keeps tool P .skip := Triple.skip fun _ => id

theorem Keeps.run {t : T} (h : ∀ s status s', P s → tool t s status s' → P s') :
    Keeps tool P (.run t) :=
  Triple.run (fun s s' hs ht => h s 0 s' hs ht) fun s status s' hs ht _ => h s status s' hs ht

theorem Keeps.edit {f : S → Option S} (h : ∀ s s', P s → f s = some s' → P s') :
    Keeps tool P (.edit f) := Triple.edit h fun _ hs _ => hs

theorem Keeps.seq (ha : Keeps tool P a) (hb : Keeps tool P b) : Keeps tool P (.seq a b) :=
  Triple.seq ha hb

theorem Keeps.ite {test : S → Bool} (ha : Keeps tool P a) (hb : Keeps tool P b) :
    Keeps tool P (.ite test a b) :=
  Triple.ite (ha.conseq (fun _ => And.left) (fun _ => id) fun _ _ => id)
    (hb.conseq (fun _ => And.left) (fun _ => id) fun _ _ => id)

theorem Keeps.require {test : S → Bool} {status : Nat} : Keeps tool P (.require test status) :=
  Triple.require (fun _ hs _ => hs) fun _ hs _ => hs

theorem Keeps.all {scripts : List (Script S T)} (h : ∀ a ∈ scripts, Keeps tool P a) :
    Keeps tool P (.all scripts) := Triple.all h

/-- An invariant holds wherever a run has ended. -/
theorem Keeps.exec {s s' : S} {o : Option Nat} (h : Keeps tool P a) (hs : P s)
    (he : Exec tool s a o s') : P s' := by
  obtain ⟨hdone, hexit⟩ := h s o s' hs he
  cases o with
  | none => exact hdone rfl
  | some status => exact hexit status rfl

end

abbrev Tree (D N F : Type) := D → N → Option F

namespace Tree
variable {D N F : Type} [DecidableEq D] [DecidableEq N]

def put (t : Tree D N F) (d : D) (n : N) (f : Option F) : Tree D N F :=
  Function.update t d (Function.update (t d) n f)

@[simp] theorem put_self (t : Tree D N F) (d : D) (n : N) (f : Option F) :
    t.put d n f d n = f := by
  simp only [put, Function.update_self]

theorem put_of_ne {t : Tree D N F} {d d' : D} {n n' : N} {f : Option F}
    (h : d' ≠ d ∨ n' ≠ n) : t.put d n f d' n' = t d' n' := by
  unfold put
  by_cases hd : d' = d
  · subst d'
    rw [Function.update_self, Function.update_of_ne (h.resolve_left fun hd => hd rfl)]
  · rw [Function.update_of_ne hd]

/-- `cp d/n d'/n`, which fails where there is no such file. -/
def copy (d : D) (n : N) (d' : D) (t : Tree D N F) : Option (Tree D N F) :=
  (t d n).map fun f => t.put d' n (some f)

def clear (t : Tree D N F) (d : D) : Tree D N F := Function.update t d fun _ => none

def copyAll (sel : N → Bool) (d d' : D) (t : Tree D N F) : Tree D N F :=
  Function.update t d' fun n => if sel n && (t d n).isSome then t d n else t d' n

def moveAll (sel : N → Bool) (d d' : D) (t : Tree D N F) : Tree D N F :=
  Function.update (t.copyAll sel d d') d fun n => if sel n then none else t d n

omit [DecidableEq N] in
@[simp] theorem clear_self (t : Tree D N F) (d : D) (n : N) : t.clear d d n = none := by
  rw [clear, Function.update_self]

omit [DecidableEq N] in
theorem clear_of_ne {t : Tree D N F} {d d' : D} (h : d' ≠ d) : t.clear d d' = t d' :=
  Function.update_of_ne h ..

omit [DecidableEq N] in
theorem copyAll_of_ne {t : Tree D N F} {sel : N → Bool} {d d' e : D} (h : e ≠ d') :
    t.copyAll sel d d' e = t e := Function.update_of_ne h ..

omit [DecidableEq N] in
theorem copyAll_selected {t : Tree D N F} {sel : N → Bool} {d d' : D} {n : N} {f : F}
    (hsel : sel n = true) (hf : t d n = some f) : t.copyAll sel d d' d' n = some f := by
  rw [copyAll, Function.update_self, hsel, hf]
  rfl

omit [DecidableEq N] in
theorem copyAll_origin {t : Tree D N F} {sel : N → Bool} {d d' : D} {n : N} {f : F}
    (hf : t.copyAll sel d d' d' n = some f) : t d' n = some f ∨ t d n = some f := by
  rw [copyAll, Function.update_self] at hf
  split at hf
  · exact .inr hf
  · exact .inl hf

omit [DecidableEq N] in
theorem moveAll_of_ne {t : Tree D N F} {sel : N → Bool} {d d' e : D} (h : e ≠ d) :
    t.moveAll sel d d' e = t.copyAll sel d d' e := Function.update_of_ne h ..

omit [DecidableEq N] in
theorem moveAll_source {t : Tree D N F} {sel : N → Bool} {d d' : D} {n : N} :
    t.moveAll sel d d' d n = if sel n then none else t d n := by
  rw [moveAll, Function.update_self]

end Tree

end ShellScript
