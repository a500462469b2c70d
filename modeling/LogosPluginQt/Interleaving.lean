import Mathlib.Logic.Relation
import Mathlib.Logic.Function.Basic
import Mathlib.Data.List.Forall2

namespace Interleaving
set_option autoImplicit true

/-- A program over atomic actions: performing `a` is answered by a value of `Ans a`. -/
inductive Prog {A : Type} (Ans : A → Type) (α : Type) : Type where
  | ret (x : α)
  | act (a : A) (next : Ans a → Prog Ans α)

namespace Prog

def bind {A : Type} {Ans : A → Type} {α β : Type} (p : Prog Ans α) (f : α → Prog Ans β) :
    Prog Ans β :=
  match p with
  | .ret x => f x
  | .act a next => .act a fun r => (next r).bind f

instance {A : Type} {Ans : A → Type} : Monad (Prog Ans) where
  pure := .ret
  bind := bind

section
variable {A : Type} {Ans : A → Type} {α β : Type}

@[simp] theorem pure_eq (x : α) : (pure x : Prog Ans α) = .ret x := rfl

@[simp] theorem ret_bind (x : α) (f : α → Prog Ans β) : (Prog.ret x >>= f) = f x := rfl

@[simp] theorem act_bind (a : A) (next : Ans a → Prog Ans α) (f : α → Prog Ans β) :
    (Prog.act a next >>= f) = .act a fun r => next r >>= f := rfl

def pending : Prog Ans α → Option A
  | .ret _ => none
  | .act a _ => some a

@[simp] theorem pending_act (a : A) (next : Ans a → Prog Ans α) :
    (Prog.act a next).pending = some a := rfl

/-- Whatever the answers are, the program returns a value of which `post` holds. -/
def Returns (post : α → Prop) : Prog Ans α → Prop
  | .ret x => post x
  | .act _ next => ∀ r, (next r).Returns post

@[simp] theorem returns_ret {post : α → Prop} {x : α} :
    Returns post (.ret x : Prog Ans α) ↔ post x := Iff.rfl

@[simp] theorem returns_act {post : α → Prop} {a : A} {next : Ans a → Prog Ans α} :
    Returns post (.act a next) ↔ ∀ r, Returns post (next r) := Iff.rfl

theorem returns_bind {post : β → Prop} {p : Prog Ans α} {f : α → Prog Ans β} :
    Returns post (p >>= f) ↔ Returns (fun x => Returns post (f x)) p := by
  induction p with
  | ret x => rfl
  | act a next ih => exact forall_congr' ih

theorem returns_of_forall {post : α → Prop} (h : ∀ x, post x) (p : Prog Ans α) :
    Returns post p := by
  induction p with
  | ret x => exact h x
  | act a next ih => exact ih

inductive Performs : Prog Ans α → A → Prop where
  | now (a : A) (next : Ans a → Prog Ans α) : Performs (.act a next) a
  | later {a b : A} {next : Ans a → Prog Ans α} {r : Ans a} :
      Performs (next r) b → Performs (.act a next) b

theorem not_performs_ret {x : α} {b : A} : ¬ Performs (.ret x : Prog Ans α) b := nofun

theorem performs_act {a b : A} {next : Ans a → Prog Ans α} :
    Performs (.act a next) b ↔ b = a ∨ ∃ r, Performs (next r) b := by
  constructor
  · intro h
    cases h with
    | now => exact .inl rfl
    | later h => exact .inr ⟨_, h⟩
  · rintro (rfl | ⟨r, h⟩)
    · exact .now _ _
    · exact .later h

theorem performs_bind_ret {p : Prog Ans α} {g : α → β} {b : A} :
    Performs (p >>= fun x => .ret (g x)) b ↔ Performs p b := by
  induction p with
  | ret x => exact iff_of_false not_performs_ret not_performs_ret
  | act a next ih => simp only [act_bind, performs_act, ih]

end

end Prog

section
variable {A : Type} {Ans : A → Type} {S α β : Type}

/-- A complete run of one program with nothing interleaved. -/
inductive Runs (exec : S → (a : A) → Ans a → S → Prop) : S → Prog Ans α → α → S → Prop where
  | ret (s : S) (x : α) : Runs exec s (.ret x) x s
  | act {s s' s'' : S} {a : A} {r : Ans a} {next : Ans a → Prog Ans α} {x : α} :
      exec s a r s' → Runs exec s' (next r) x s'' → Runs exec s (.act a next) x s''

variable {exec : S → (a : A) → Ans a → S → Prop}

@[simp] theorem runs_ret {s s' : S} {x y : α} :
    Runs exec s (.ret x : Prog Ans α) y s' ↔ y = x ∧ s' = s := by
  constructor
  · intro h
    cases h
    exact ⟨rfl, rfl⟩
  · rintro ⟨rfl, rfl⟩
    exact .ret _ _

@[simp] theorem runs_act {s s'' : S} {a : A} {next : Ans a → Prog Ans α} {x : α} :
    Runs exec s (.act a next) x s'' ↔
      ∃ r s', exec s a r s' ∧ Runs exec s' (next r) x s'' := by
  constructor
  · intro h
    cases h with
    | act he hr => exact ⟨_, _, he, hr⟩
  · rintro ⟨r, s', he, hr⟩
    exact .act he hr

/-- Running a sequence splits at the state where its first part returned. -/
theorem runs_bind {s s'' : S} {p : Prog Ans α} {f : α → Prog Ans β} {y : β} :
    Runs exec s (p >>= f) y s'' ↔
      ∃ x s', Runs exec s p x s' ∧ Runs exec s' (f x) y s'' := by
  induction p generalizing s with
  | ret x =>
    constructor
    · intro h
      exact ⟨x, s, .ret _ _, h⟩
    · rintro ⟨x', s', h, hf⟩
      obtain ⟨rfl, rfl⟩ := runs_ret.1 h
      exact hf
  | act a next ih =>
    rw [Prog.act_bind, runs_act]
    constructor
    · rintro ⟨r, s₁, he, h⟩
      obtain ⟨x, s', hp, hf⟩ := (ih r).1 h
      exact ⟨x, s', .act he hp, hf⟩
    · rintro ⟨x, s', hp, hf⟩
      obtain ⟨r, s₁, he, hn⟩ := runs_act.1 hp
      exact ⟨r, s₁, he, (ih r).2 ⟨x, s', hn, hf⟩⟩

end

section
variable {A : Type} {Ans : A → Type} {α β K : Type}

/-- A program follows a phase automaton when, from the phase it is in, the automaton
allows every action it may perform next and it returns only where `post` holds. -/
def Follows (next : K → (a : A) → Ans a → Option K) (post : α → K → Prop) :
    Prog Ans α → K → Prop
  | .ret x, κ => post x κ
  | .act a rest, κ => ∀ r, ∃ κ', next κ a r = some κ' ∧ Follows next post (rest r) κ'

variable {next : K → (a : A) → Ans a → Option K} {post : α → K → Prop}

theorem follows_bind {post' : β → K → Prop} {p : Prog Ans α} {f : α → Prog Ans β} {κ : K}
    (h : Follows next (fun x κ' => Follows next post' (f x) κ') p κ) :
    Follows next post' (p >>= f) κ := by
  induction p generalizing κ with
  | ret x => exact h
  | act a rest ih =>
    intro r
    obtain ⟨κ', hn, hr⟩ := h r
    exact ⟨κ', hn, ih r hr⟩

theorem Follows.mono {post' : α → K → Prop} {p : Prog Ans α} {κ : K}
    (h : Follows next post p κ) (hpost : ∀ x κ', post x κ' → post' x κ') :
    Follows next post' p κ := by
  induction p generalizing κ with
  | ret x => exact hpost _ _ h
  | act a rest ih =>
    intro r
    obtain ⟨κ', hn, hr⟩ := h r
    exact ⟨κ', hn, ih r hr⟩

end

/-- Threads that run programs over a shared state. A thread is a stack of programs: only
the top one runs, and a new one may be entered on an idle thread or while the top one
waits in an action. -/
structure System {A : Type} (Ans : A → Type) (α S : Type) where
  exec : Nat → S → (a : A) → Ans a → S → Prop
  enter : Nat → S → Option A → Prog Ans α → S → Prop

structure Config {A : Type} (Ans : A → Type) (α S : Type) where
  shared : S
  stack : Nat → List (Prog Ans α)

section
variable {A : Type} {Ans : A → Type} {α β S K : Type}

inductive Step (sys : System Ans α S) : Config Ans α S → Config Ans α S → Prop where
  | run {c : Config Ans α S} {t : Nat} {a : A} {next : Ans a → Prog Ans α}
      {rest : List (Prog Ans α)} {r : Ans a} {s' : S} :
      c.stack t = .act a next :: rest → sys.exec t c.shared a r s' →
      Step sys c ⟨s', Function.update c.stack t (next r :: rest)⟩
  | leave {c : Config Ans α S} {t : Nat} {x : α} {rest : List (Prog Ans α)} :
      c.stack t = .ret x :: rest →
      Step sys c ⟨c.shared, Function.update c.stack t rest⟩
  | enter {c : Config Ans α S} {t : Nat} {p : Prog Ans α} {s' : S} :
      c.stack t = [] → sys.enter t c.shared none p s' →
      Step sys c ⟨s', Function.update c.stack t [p]⟩
  | nest {c : Config Ans α S} {t : Nat} {a : A} {next : Ans a → Prog Ans α}
      {rest : List (Prog Ans α)} {p : Prog Ans α} {s' : S} :
      c.stack t = .act a next :: rest → sys.enter t c.shared (some a) p s' →
      Step sys c ⟨s', Function.update c.stack t (p :: c.stack t)⟩

/-- Every configuration some interleaving leads to from an idle system. -/
def Reachable (sys : System Ans α S) (s₀ : S) (c : Config Ans α S) : Prop :=
  Relation.ReflTransGen (Step sys) ⟨s₀, fun _ => []⟩ c

theorem Reachable.refl (sys : System Ans α S) (s₀ : S) :
    Reachable sys s₀ ⟨s₀, fun _ => []⟩ := Relation.ReflTransGen.refl

theorem Reachable.step {sys : System Ans α S} {s₀ : S} {c c' : Config Ans α S}
    (h : Reachable sys s₀ c) (hs : Step sys c c') : Reachable sys s₀ c' :=
  Relation.ReflTransGen.tail h hs

inductive Advances (exec : S → (a : A) → Ans a → S → Prop) :
    S → Prog Ans α → Prog Ans α → S → Prop where
  | refl (s : S) (p : Prog Ans α) : Advances exec s p p s
  | act {s s' s'' : S} {a : A} {r : Ans a} {next : Ans a → Prog Ans α} {p : Prog Ans α} :
      exec s a r s' → Advances exec s' (next r) p s'' → Advances exec s (.act a next) p s''

theorem Runs.advances {exec : S → (a : A) → Ans a → S → Prop} {s s' : S} {p : Prog Ans α}
    {x : α} (h : Runs exec s p x s') : Advances exec s p (.ret x) s' := by
  induction h with
  | ret => exact .refl _ _
  | act he _ ih => exact .act he ih

theorem Advances.runs {exec : S → (a : A) → Ans a → S → Prop} {s s' s'' : S}
    {p p' : Prog Ans α} {x : α} (h : Advances exec s p p' s') (hr : Runs exec s' p' x s'') :
    Runs exec s p x s'' := by
  induction h with
  | refl => exact hr
  | act he _ ih => exact .act he (ih hr)

theorem Advances.bind {exec : S → (a : A) → Ans a → S → Prop} {s s' : S} {p p' : Prog Ans α}
    (h : Advances exec s p p' s') (f : α → Prog Ans β) :
    Advances exec s (p >>= f) (p' >>= f) s' := by
  induction h with
  | refl => exact .refl _ _
  | act he _ ih => exact .act he ih

theorem Advances.steps {sys : System Ans α S} {t : Nat} {s s' : S} {p p' : Prog Ans α}
    (h : Advances (sys.exec t) s p p' s') {stack : Nat → List (Prog Ans α)}
    {rest : List (Prog Ans α)} (hp : stack t = p :: rest) :
    Relation.ReflTransGen (Step sys) ⟨s, stack⟩
      ⟨s', Function.update stack t (p' :: rest)⟩ := by
  induction h generalizing stack with
  | refl s p =>
    rw [← hp, Function.update_eq_self]
  | act he _ ih =>
    have hstep := Step.run (c := ⟨_, stack⟩) hp he
    refine .head hstep ?_
    simpa only [Function.update_idem] using ih (Function.update_self ..)

theorem Reachable.advance {sys : System Ans α S} {s₀ s' : S} {c : Config Ans α S} {t : Nat}
    {p p' : Prog Ans α} {rest : List (Prog Ans α)} (h : Reachable sys s₀ c)
    (hp : c.stack t = p :: rest) (hr : Advances (sys.exec t) c.shared p p' s') :
    Reachable sys s₀ ⟨s', Function.update c.stack t (p' :: rest)⟩ :=
  Relation.ReflTransGen.trans h (hr.steps hp)

/-- A complete run of one program with the complete runs of all that is entered from inside
it, and nothing else interleaved. -/
inductive NestedRuns (sys : System Ans α S) (t : Nat) : S → Prog Ans α → α → S → Prop where
  | ret (s : S) (x : α) : NestedRuns sys t s (.ret x) x s
  | act {s s' s'' : S} {a : A} {r : Ans a} {next : Ans a → Prog Ans α} {x : α} :
      sys.exec t s a r s' → NestedRuns sys t s' (next r) x s'' →
      NestedRuns sys t s (.act a next) x s''
  | nest {s s₁ s₂ s' : S} {a : A} {next : Ans a → Prog Ans α} {p : Prog Ans α} {x y : α} :
      sys.enter t s (some a) p s₁ → NestedRuns sys t s₁ p y s₂ →
      NestedRuns sys t s₂ (.act a next) x s' → NestedRuns sys t s (.act a next) x s'

section
variable {sys : System Ans α S} {t : Nat} {s s' : S} {p : Prog Ans α} {x : α}

theorem Runs.nested (h : Runs (sys.exec t) s p x s') : NestedRuns sys t s p x s' := by
  induction h with
  | ret => exact .ret _ _
  | act he _ ih => exact .act he ih

theorem NestedRuns.steps (h : NestedRuns sys t s p x s') {stack : Nat → List (Prog Ans α)}
    {rest : List (Prog Ans α)} (hp : stack t = p :: rest) :
    Relation.ReflTransGen (Step sys) ⟨s, stack⟩
      ⟨s', Function.update stack t (.ret x :: rest)⟩ := by
  induction h generalizing stack rest with
  | ret s x => rw [← hp, Function.update_eq_self]
  | act he _ ih =>
    refine .head (Step.run (c := ⟨_, stack⟩) hp he) ?_
    simpa only [Function.update_idem] using ih (Function.update_self ..)
  | nest he _ _ ih ih' =>
    have hcall := ih (Function.update_self t (_ :: stack t) stack)
    rw [Function.update_idem] at hcall
    have hleave := hcall.tail (.leave (Function.update_self ..))
    rw [Function.update_idem, Function.update_eq_self] at hleave
    exact .head (Step.nest (c := ⟨_, stack⟩) hp he) (hleave.trans (ih' hp))

theorem Reachable.nestedCall {s₀ s₁ : S} {c : Config Ans α S} (h : Reachable sys s₀ c)
    (ht : c.stack t = []) (he : sys.enter t c.shared none p s₁)
    (hr : NestedRuns sys t s₁ p x s') : Reachable sys s₀ ⟨s', c.stack⟩ := by
  have hrun := (h.step (.enter ht he)).trans (hr.steps (Function.update_self ..))
  have hidle : Function.update c.stack t [] = c.stack := by rw [← ht, Function.update_eq_self]
  have hleave := Reachable.step hrun (.leave (Function.update_self ..))
  simpa only [Function.update_idem, hidle] using hleave

theorem Reachable.call {s₀ s₁ : S} {c : Config Ans α S} (h : Reachable sys s₀ c)
    (ht : c.stack t = []) (he : sys.enter t c.shared none p s₁)
    (hr : Runs (sys.exec t) s₁ p x s') : Reachable sys s₀ ⟨s', c.stack⟩ :=
  h.nestedCall ht he hr.nested

theorem Runs.steps_nested {c : Config Ans α S} {a : A} {next : Ans a → Prog Ans α}
    {rest : List (Prog Ans α)} {s₁ : S} (ht : c.stack t = .act a next :: rest)
    (he : sys.enter t c.shared (some a) p s₁) (hr : Runs (sys.exec t) s₁ p x s') :
    Relation.ReflTransGen (Step sys) c ⟨s', c.stack⟩ := by
  have hrun := hr.advances.steps (Function.update_self t (p :: c.stack t) c.stack)
  rw [Function.update_idem] at hrun
  have hleave := hrun.tail (.leave (Function.update_self ..))
  rw [Function.update_idem, Function.update_eq_self] at hleave
  exact .head (.nest ht he) hleave

theorem NestedRuns.keeps (h : NestedRuns sys t s p x s') {I : S → Prop}
    (hexec : ∀ {s a r s'}, sys.exec t s a r s' → I s → I s')
    (henter : ∀ {s a p s'}, sys.enter t s (some a) p s' → I s → I s') (hI : I s) : I s' := by
  induction h with
  | ret => exact hI
  | act he _ ih => exact ih (hexec he hI)
  | nest he _ _ ih ih' => exact ih' (ih (henter he hI))

theorem NestedRuns.act_inv {a : A} {next : Ans a → Prog Ans α}
    (h : NestedRuns sys t s (.act a next) x s') :
    ∃ s₁ r s₂, ((∀ p s'', ¬ sys.enter t s (some a) p s'') → s₁ = s) ∧
      sys.exec t s₁ a r s₂ ∧ NestedRuns sys t s₂ (next r) x s' := by
  generalize hp : Prog.act a next = p at h
  induction h with
  | ret => cases hp
  | act he hr _ =>
    cases hp
    exact ⟨_, _, _, fun _ => rfl, he, hr⟩
  | nest he _ _ _ ih =>
    cases hp
    obtain ⟨s₁, r, s₂, _, hexec, hr⟩ := ih rfl
    exact ⟨s₁, r, s₂, fun hnone => absurd he (hnone _ _), hexec, hr⟩

theorem NestedRuns.ret_inv {y : α} (h : NestedRuns sys t s (.ret y) x s') :
    x = y ∧ s' = s := by
  cases h
  exact ⟨rfl, rfl⟩

end

/-- What an invariant over the phases of all frames has to be shown to keep. -/
structure PhaseInvariant (sys : System Ans α S) (next : K → (a : A) → Ans a → Option K)
    (post : α → K → Prop) (I : S → (Nat → List K) → Prop) : Prop where
  run : ∀ {s s' : S} {φ : Nat → List K} {t : Nat} {a : A} {r : Ans a} {κ κ' : K}
    {rest : List K}, I s φ → φ t = κ :: rest → sys.exec t s a r s' →
    next κ a r = some κ' → I s' (Function.update φ t (κ' :: rest))
  leave : ∀ {s : S} {φ : Nat → List K} {t : Nat} {x : α} {κ : K} {rest : List K},
    I s φ → φ t = κ :: rest → post x κ → I s (Function.update φ t rest)
  enter : ∀ {s s' : S} {φ : Nat → List K} {t : Nat} {p : Prog Ans α},
    I s φ → φ t = [] → sys.enter t s none p s' →
    ∃ κ, Follows next post p κ ∧ I s' (Function.update φ t [κ])
  nest : ∀ {s s' : S} {φ : Nat → List K} {t : Nat} {a : A} {p : Prog Ans α} {κ : K}
    {rest : List K}, I s φ → φ t = κ :: rest → (∀ r, ∃ κ', next κ a r = some κ') →
    sys.enter t s (some a) p s' →
    ∃ κ', Follows next post p κ' ∧ I s' (Function.update φ t (κ' :: φ t))

def Tracks (next : K → (a : A) → Ans a → Option K) (post : α → K → Prop)
    (c : Config Ans α S) (φ : Nat → List K) : Prop :=
  ∀ t, List.Forall₂ (Follows next post) (c.stack t) (φ t)

variable {sys : System Ans α S} {next : K → (a : A) → Ans a → Option K}
  {post : α → K → Prop} {I : S → (Nat → List K) → Prop} {s₀ : S} {c c' : Config Ans α S}
  {φ : Nat → List K}

theorem mem_update {t u : Nat} {κs : List K} {κ : K} (h : κ ∈ Function.update φ t κs u) :
    (u = t ∧ κ ∈ κs) ∨ (u ≠ t ∧ κ ∈ φ u) := by
  by_cases hu : u = t
  · subst hu
    rw [Function.update_self] at h
    exact .inl ⟨rfl, h⟩
  · rw [Function.update_of_ne hu] at h
    exact .inr ⟨hu, h⟩

theorem mem_update_of {t u : Nat} {κs : List K} {κ : K} (h : κ ∈ φ u)
    (hκs : u = t → κ ∈ κs) : κ ∈ Function.update φ t κs u := by
  by_cases hu : u = t
  · subst hu
    rw [Function.update_self]
    exact hκs rfl
  · rwa [Function.update_of_ne hu]

theorem Tracks.update (h : Tracks next post c φ) {s : S} {t : Nat} {ps : List (Prog Ans α)}
    {κs : List K} (hps : List.Forall₂ (Follows next post) ps κs) :
    Tracks next post ⟨s, Function.update c.stack t ps⟩ (Function.update φ t κs) := by
  intro u
  by_cases hu : u = t
  · subst u
    simpa only [Function.update_self] using hps
  · simpa only [Function.update_of_ne hu] using h u

theorem Tracks.cons (h : Tracks next post c φ) {t : Nat} {p : Prog Ans α}
    {rest : List (Prog Ans α)} (hp : c.stack t = p :: rest) :
    ∃ κ κs, φ t = κ :: κs ∧ Follows next post p κ ∧
      List.Forall₂ (Follows next post) rest κs := by
  have ht := h t
  rw [hp] at ht
  obtain ⟨κ, κs, hκ, hκs, he⟩ := List.forall₂_cons_left_iff.1 ht
  exact ⟨κ, κs, he, hκ, hκs⟩

theorem Tracks.nil (h : Tracks next post c φ) {t : Nat} (hp : c.stack t = []) :
    φ t = [] := by
  have ht := h t
  rw [hp] at ht
  exact List.forall₂_nil_left_iff.1 ht

theorem Tracks.mem (h : Tracks next post c φ) {t : Nat} {p : Prog Ans α}
    (hp : p ∈ c.stack t) : ∃ κ ∈ φ t, Follows next post p κ := by
  have ht := h t
  generalize c.stack t = ps at ht hp
  generalize φ t = κs at ht ⊢
  induction ht with
  | nil => cases hp
  | @cons q κ _ κs hκ _ ih =>
    obtain rfl | hrest := List.mem_cons.1 hp
    · exact ⟨κ, List.mem_cons_self .., hκ⟩
    · obtain ⟨κ', hmem, hκ'⟩ := ih hrest
      exact ⟨κ', List.mem_cons_of_mem _ hmem, hκ'⟩

theorem Tracks.frame (h : Tracks next post c φ) {t : Nat} {κ : K} (hκ : κ ∈ φ t) :
    ∃ p ∈ c.stack t, Follows next post p κ := by
  have ht := h t
  generalize c.stack t = ps at ht ⊢
  generalize φ t = κs at ht hκ
  induction ht with
  | nil => cases hκ
  | @cons p _ ps _ hp _ ih =>
    obtain rfl | hrest := List.mem_cons.1 hκ
    · exact ⟨p, List.mem_cons_self .., hp⟩
    · obtain ⟨p', hmem, hp'⟩ := ih hrest
      exact ⟨p', List.mem_cons_of_mem _ hmem, hp'⟩

/-- One step keeps a phase invariant. -/
theorem PhaseInvariant.step (hI : PhaseInvariant sys next post I) (hc : Tracks next post c φ)
    (hs : I c.shared φ) (h : Step sys c c') :
    ∃ φ', Tracks next post c' φ' ∧ I c'.shared φ' := by
  cases h with
  | run hp he =>
    obtain ⟨κ, κs, hφ, hκ, hκs⟩ := hc.cons hp
    obtain ⟨κ', hn, hκ'⟩ := hκ _
    exact ⟨_, hc.update (.cons hκ' hκs), hI.run hs hφ he hn⟩
  | leave hp =>
    obtain ⟨κ, κs, hφ, hκ, hκs⟩ := hc.cons hp
    exact ⟨_, hc.update hκs, hI.leave hs hφ hκ⟩
  | enter hp he =>
    obtain ⟨κ, hκ, hs'⟩ := hI.enter hs (hc.nil hp) he
    exact ⟨_, hc.update (.cons hκ .nil), hs'⟩
  | nest hp he =>
    obtain ⟨κ, κs, hφ, hκ, hκs⟩ := hc.cons hp
    have hallowed := fun r => (hκ r).imp fun _ => And.left
    obtain ⟨κ', hκ', hs'⟩ := hI.nest hs hφ hallowed he
    exact ⟨_, hc.update (.cons hκ' (hc _)), hs'⟩

/-- A phase invariant that holds of the idle system holds in every interleaving. -/
theorem PhaseInvariant.reachable (hI : PhaseInvariant sys next post I)
    (h₀ : I s₀ fun _ => []) (h : Reachable sys s₀ c) :
    ∃ φ, Tracks next post c φ ∧ I c.shared φ := by
  induction h with
  | refl => exact ⟨_, fun _ => .nil, h₀⟩
  | tail _ hs ih =>
    obtain ⟨φ, hc, hφ⟩ := ih
    exact hI.step hc hφ hs

end

end Interleaving
