import LogosPluginQt.Interleaving
import Mathlib.Algebra.BigOperators.Group.Finset.Piecewise
import Mathlib.Algebra.Order.Group.Multiset
import Mathlib.Logic.Hydra

namespace Interleaving
open Relation
set_option autoImplicit true

section
variable {A : Type} {Ans : A → Type} {α β K S : Type} {bad : A → Prop}

def Prog.Avoids (bad : A → Prop) : Prog Ans α → Prop
  | .ret _ => True
  | .act a next => ¬ bad a ∧ ∀ r, (next r).Avoids bad

theorem Prog.Returns.mono {post post' : α → Prop} {p : Prog Ans α} (h : p.Returns post)
    (hpost : ∀ x, post x → post' x) : p.Returns post' := by
  induction p with
  | ret x => exact hpost x h
  | act a next ih => exact fun r => ih r (h r)

theorem Prog.avoids_bind {p : Prog Ans α} {f : α → Prog Ans β} (hp : p.Avoids bad)
    (hf : p.Returns fun x => (f x).Avoids bad) : (p >>= f).Avoids bad := by
  induction p with
  | ret x => exact hf
  | act a next ih => exact ⟨hp.1, fun r => ih r (hp.2 r) (hf r)⟩

theorem Follows.avoids [∀ a, Nonempty (Ans a)] {next : K → (a : A) → Ans a → Option K}
    {post : α → K → Prop} {J : K → Prop}
    (hJ : ∀ {κ a r κ'}, J κ → next κ a r = some κ' → ¬ bad a ∧ J κ') {p : Prog Ans α} {κ : K}
    (hf : Follows next post p κ) (hκ : J κ) : p.Avoids bad := by
  induction p generalizing κ with
  | ret x => trivial
  | act a rest ih =>
    constructor
    · obtain ⟨r⟩ : Nonempty (Ans a) := inferInstance
      obtain ⟨κ', hn, _⟩ := hf r
      exact (hJ hκ hn).1
    · intro r
      obtain ⟨κ', hn, hr⟩ := hf r
      exact ih r hr (hJ hκ hn).2

theorem Reachable.avoids {sys : System Ans α S} {s₀ : S} {c : Config Ans α S}
    (hr : Reachable sys s₀ c)
    (henter : ∀ {t s within p s'}, sys.enter t s within p s' → p.Avoids bad) :
    ∀ t, ∀ p ∈ c.stack t, p.Avoids bad := by
  have hupdate {stack : Nat → List (Prog Ans α)} {t : Nat} {ps : List (Prog Ans α)}
      (h : ∀ t, ∀ p ∈ stack t, p.Avoids bad) (hps : ∀ p ∈ ps, p.Avoids bad) :
      ∀ u, ∀ p ∈ Function.update stack t ps u, p.Avoids bad :=
    (Function.forall_update_iff stack fun _ ps => ∀ p ∈ ps, p.Avoids bad).2
      ⟨hps, fun u _ => h u⟩
  induction hr with
  | refl => exact fun _ _ hmem => absurd hmem List.not_mem_nil
  | tail _ hs ih =>
    cases hs with
    | @run t a next rest r s' hp he =>
      obtain ⟨htop, hrest⟩ := List.forall_mem_cons.1 (hp ▸ ih t)
      exact hupdate ih (List.forall_mem_cons.2 ⟨htop.2 r, hrest⟩)
    | @leave t x rest hp =>
      exact hupdate ih (List.forall_mem_cons.1 (hp ▸ ih t)).2
    | enter hp he => exact hupdate ih (List.forall_mem_singleton.2 (henter he))
    | @nest t a next rest p s' hp he =>
      exact hupdate ih (List.forall_mem_cons.2 ⟨henter he, ih t⟩)

end

section
variable {α X : Type} {g : Nat → α → X} {f : Nat → List α} {M : Multiset X}

def Holds (g : Nat → α → X) (f : Nat → List α) (M : Multiset X) : Prop :=
  ∃ places : Finset Nat, (∀ t ∉ places, f t = []) ∧
    M = ∑ t ∈ places, ((f t).map (g t) : Multiset X)

theorem Holds.empty : Holds g (fun _ => []) 0 :=
  ⟨∅, fun _ _ => rfl, rfl⟩

theorem Holds.eq_zero (h : Holds g f M) (hf : ∀ t, f t = []) : M = 0 := by
  obtain ⟨places, _, rfl⟩ := h
  apply Finset.sum_eq_zero
  intro t _
  rw [hf t]
  rfl

theorem Holds.update (h : Holds g f M) (t : Nat) (l : List α) :
    ∃ M', Holds g (Function.update f t l) M' ∧
      M' + (f t).map (g t) = M + l.map (g t) := by
  obtain ⟨places, hnil, rfl⟩ := h
  have ht : t ∈ insert t places := Finset.mem_insert_self t places
  have hinsert : ∑ u ∈ insert t places, ((f u).map (g u) : Multiset X) =
      ∑ u ∈ places, ((f u).map (g u) : Multiset X) := by
    apply Finset.sum_insert_of_eq_zero_if_notMem
    intro hmem
    rw [hnil t hmem]
    rfl
  have hrest : ∑ u ∈ (insert t places).erase t,
      ((Function.update f t l u).map (g u) : Multiset X) =
      ∑ u ∈ (insert t places).erase t, ((f u).map (g u) : Multiset X) := by
    apply Finset.sum_congr rfl
    intro u hu
    rw [Function.update_of_ne (Finset.ne_of_mem_erase hu)]
  refine ⟨_, ⟨insert t places, ?_, rfl⟩, ?_⟩
  · intro u hu
    have hne : u ≠ t := fun he => hu (he ▸ ht)
    rw [Function.update_of_ne hne]
    exact hnil u fun hmem => hu (Finset.mem_insert_of_mem hmem)
  · rw [← hinsert, ← Finset.add_sum_erase _ _ ht, hrest, Function.update_self,
      ← Finset.add_sum_erase _ (fun u => ((f u).map (g u) : Multiset X)) ht,
      add_comm _ ((f t).map (g t) : Multiset X), add_comm (l.map (g t) : Multiset X), add_assoc]

theorem Holds.replace (h : Holds g f M) {t : Nat} {l rest : List α} (xs ys : List α)
    (ht : (f t).Perm (xs ++ rest)) (hl : l.Perm (ys ++ rest)) :
    ∃ M', Holds g (Function.update f t l) M' ∧ M' + xs.map (g t) = M + ys.map (g t) := by
  obtain ⟨M', hM', he⟩ := h.update t l
  refine ⟨M', hM', ?_⟩
  rw [Multiset.coe_eq_coe.2 (ht.map (g t)), Multiset.coe_eq_coe.2 (hl.map (g t)),
    List.map_append, List.map_append, ← Multiset.coe_add, ← Multiset.coe_add, ← add_assoc,
    ← add_assoc] at he
  exact add_right_cancel he

end

end Interleaving
