import Mathlib.Logic.Function.Basic
import Mathlib.Data.Fintype.Card
import Mathlib.Tactic.Choose

namespace HashTables
set_option autoImplicit true

/-- How a table compares its keys, and hashes them under a seed. -/
structure Hashing (K : Type) where
  eq : K → K → Bool
  hash : K → BitVec 64 → BitVec 64

/-- What a hash table relies on. -/
structure Coherent (H : Hashing K) : Prop where
  refl : ∀ a, H.eq a a = true
  symm : ∀ a b, H.eq a b = true → H.eq b a = true
  trans : ∀ a b c, H.eq a b = true → H.eq b c = true → H.eq a c = true
  hash_eq : ∀ a b seed, H.eq a b = true → H.hash a seed = H.hash b seed

section
variable {K C V : Type} {H : Hashing K}

theorem Coherent.of_eq_iff (f : K → C) (heq : ∀ a b, H.eq a b = true ↔ f a = f b)
    (hhash : ∀ a b seed, f a = f b → H.hash a seed = H.hash b seed) : Coherent H where
  refl a := (heq a a).2 rfl
  symm a b h := (heq b a).2 ((heq a b).1 h).symm
  trans a b c h h' := (heq a c).2 (((heq a b).1 h).trans ((heq b c).1 h'))
  hash_eq a b seed h := hhash a b seed ((heq a b).1 h)

theorem Coherent.eq_congr (hc : Coherent H) {a b c : K} (h : H.eq a b = true) :
    H.eq c a = H.eq c b := by
  rw [Bool.eq_iff_iff]
  constructor
  · intro ha
    exact hc.trans c a b ha h
  · intro hb
    exact hc.trans c b a hb (hc.symm a b h)

/-- A hash table. It is only held to its contract where its keys are coherent. -/
structure HashMap (H : Hashing K) (V : Type) where
  Table : Type
  empty : Table
  find : Table → K → Option V
  insert : Table → K → V → Table
  find_empty : ∀ k, find empty k = none
  find_insert : Coherent H → ∀ t k v k',
    find (insert t k v) k' = if H.eq k k' = true then some v else find t k'

def chained (H : Hashing K) (V : Type) (seed : BitVec 64) (buckets : Nat) : HashMap H V where
  Table := Nat → List (K × V)
  empty := fun _ => []
  find t k := ((t ((H.hash k seed).toNat % buckets)).find? fun e => H.eq e.1 k).map Prod.snd
  insert t k v := Function.update t ((H.hash k seed).toNat % buckets)
    ((k, v) :: t ((H.hash k seed).toNat % buckets))
  find_empty _ := rfl
  find_insert hc t k v k' := by
    by_cases heq : H.eq k k' = true
    · rw [← hc.hash_eq k k' seed heq, Function.update_self, if_pos heq]
      simp only [List.find?_cons, heq, Option.map_some]
    · rw [if_neg heq]
      by_cases hb : (H.hash k' seed).toNat % buckets = (H.hash k seed).toNat % buckets
      · rw [hb, Function.update_self]
        simp only [List.find?_cons, heq]
      · rw [Function.update_of_ne hb]

/-- A table of the values made so far, numbered from zero, and what was asked of it. -/
structure Memo (M : HashMap H Nat) where
  table : M.Table
  made : Nat := 0
  asked : List (K × Nat) := []

namespace Memo
variable {M : HashMap H Nat} {m : Memo M} {k k' : K} {n n' : Nat}

def ask (m : Memo M) (k : K) : Nat × Memo M :=
  match M.find m.table k with
  | some n => (n, { m with asked := (k, n) :: m.asked })
  | none => (m.made, { table := M.insert m.table k m.made
                       made := m.made + 1
                       asked := (k, m.made) :: m.asked })

/-- The table has exactly what was asked, and a value of its own for each key. -/
structure Sound (m : Memo M) : Prop where
  found : ∀ k n, (k, n) ∈ m.asked → M.find m.table k = some n
  congr : ∀ k k', H.eq k k' = true → M.find m.table k = M.find m.table k'
  distinct : ∀ k k' n, M.find m.table k = some n → M.find m.table k' = some n →
    H.eq k k' = true
  bound : ∀ k n, M.find m.table k = some n → n < m.made
  used : ∀ n < m.made, ∃ k, (k, n) ∈ m.asked

theorem Sound.initial (M : HashMap H Nat) : Sound (M := M) ⟨M.empty, 0, []⟩ where
  found _ _ := nofun
  congr k k' _ := (M.find_empty k).trans (M.find_empty k').symm
  distinct k _ n h := by
    rw [M.find_empty] at h
    cases h
  bound k n h := by
    rw [M.find_empty] at h
    cases h
  used _ h := absurd h (Nat.not_lt_zero _)

theorem Sound.ask (hc : Coherent H) (h : Sound m) (k : K) : Sound (m.ask k).2 := by
  unfold Memo.ask
  cases hfind : M.find m.table k with
  | some n =>
    refine ⟨?_, h.congr, h.distinct, h.bound, ?_⟩
    · intro k' n' hasked
      rcases List.mem_cons.1 hasked with he | hmem
      · cases he
        exact hfind
      · exact h.found k' n' hmem
    · intro n' hn
      obtain ⟨k', hk'⟩ := h.used n' hn
      exact ⟨k', List.mem_cons_of_mem _ hk'⟩
  | none =>
    -- no key equal to the new one has been asked before
    have hnew {k' : K} {n' : Nat} (hf : M.find m.table k' = some n') : ¬ H.eq k k' = true := by
      intro heq
      rw [← h.congr k k' heq, hfind] at hf
      cases hf
    refine ⟨?_, ?_, ?_, ?_, ?_⟩
    · intro k' n' hasked
      rcases List.mem_cons.1 hasked with he | hmem
      · cases he
        rw [M.find_insert hc, if_pos (hc.refl k)]
      · have hf := h.found k' n' hmem
        rw [M.find_insert hc, if_neg (hnew hf), hf]
    · intro k₁ k₂ heq
      rw [M.find_insert hc, M.find_insert hc, hc.eq_congr heq, h.congr k₁ k₂ heq]
    · intro k₁ k₂ n' h₁ h₂
      rw [M.find_insert hc] at h₁ h₂
      split at h₁
      next heq₁ =>
        obtain rfl := Option.some.inj h₁
        split at h₂
        next heq₂ => exact hc.trans _ _ _ (hc.symm _ _ heq₁) heq₂
        next => exact absurd (h.bound k₂ _ h₂) (Nat.lt_irrefl _)
      next =>
        split at h₂
        next =>
          obtain rfl := Option.some.inj h₂
          exact absurd (h.bound k₁ _ h₁) (Nat.lt_irrefl _)
        next => exact h.distinct k₁ k₂ n' h₁ h₂
    · intro k' n' hf
      rw [M.find_insert hc] at hf
      split at hf
      next =>
        obtain rfl := Option.some.inj hf
        exact Nat.lt_succ_self _
      next => exact Nat.lt_succ_of_lt (h.bound k' n' hf)
    · intro n' hn
      rcases Nat.lt_succ_iff_lt_or_eq.1 hn with hlt | rfl
      · obtain ⟨k', hk'⟩ := h.used n' hlt
        exact ⟨k', List.mem_cons_of_mem _ hk'⟩
      · exact ⟨k, List.mem_cons_self⟩

/-- Two askings got the same value exactly when their keys are equal. -/
theorem Sound.same_iff (h : Sound m) (hk : (k, n) ∈ m.asked) (hk' : (k', n') ∈ m.asked) :
    n = n' ↔ H.eq k k' = true := by
  have hf := h.found k n hk
  have hf' := h.found k' n' hk'
  constructor
  · rintro rfl
    exact h.distinct k k' n hf hf'
  · intro heq
    rw [h.congr k k' heq, hf'] at hf
    exact (Option.some.inj hf).symm

theorem Sound.known (h : Sound m) (hf : M.find m.table k = some n) :
    ∃ k', (k', n) ∈ m.asked ∧ H.eq k' k = true := by
  obtain ⟨k', hk'⟩ := h.used n (h.bound k n hf)
  exact ⟨k', hk', h.distinct k' k n (h.found k' n hk') hf⟩

theorem Sound.card_asked [DecidableEq C] (h : Sound m) (f : K → C)
    (heq : ∀ a b, H.eq a b = true ↔ f a = f b) :
    (m.asked.map fun a => f a.1).toFinset.card = m.made := by
  choose key hkey using h.used
  have himage : (m.asked.map fun a => f a.1).toFinset =
      Finset.univ.image fun n : Fin m.made => f (key n n.isLt) := by
    ext c
    rw [List.mem_toFinset, List.mem_map, Finset.mem_image]
    constructor
    · rintro ⟨⟨k, n⟩, hmem, rfl⟩
      have hn := h.bound k n (h.found k n hmem)
      exact ⟨⟨n, hn⟩, Finset.mem_univ _, (heq _ _).1 ((h.same_iff (hkey n hn) hmem).1 rfl)⟩
    · rintro ⟨n, _, rfl⟩
      exact ⟨(key n n.isLt, n), hkey n n.isLt, rfl⟩
  rw [himage, Finset.card_image_of_injective, Finset.card_univ, Fintype.card_fin]
  intro n n' he
  exact Fin.ext ((h.same_iff (hkey n n.isLt) (hkey n' n'.isLt)).2 ((heq _ _).2 he))

end Memo

end

end HashTables
