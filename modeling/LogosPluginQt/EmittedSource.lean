import Mathlib.Data.List.Basic

namespace EmittedSource
set_option autoImplicit true

inductive Line (G C : Type) where
  | hashIf (guard : G)
  | hashElse
  | hashEndif
  | code (c : C)

/-- An open conditional: whether its lines are kept, and whether its `#else` has come. -/
structure Branch where
  kept : Bool
  inElse : Bool

section
variable {G C : Type} {holds : G → Bool} {guard : G}

/-- The preprocessor: what is kept of a source whose conditionals are well formed. -/
def resolve (holds : G → Bool) : List Branch → List (Line G C) → Option (List C)
  | [], [] => some []
  | branches, .hashIf guard :: rest => resolve holds (⟨holds guard, false⟩ :: branches) rest
  | ⟨kept, false⟩ :: branches, .hashElse :: rest => resolve holds (⟨!kept, true⟩ :: branches) rest
  | _ :: branches, .hashEndif :: rest => resolve holds branches rest
  | branches, .code c :: rest =>
    if branches.all Branch.kept then (resolve holds branches rest).map (c :: ·)
    else resolve holds branches rest
  | _, _ => none

def plain (cs : List C) : List (Line G C) := cs.map .code

def guarded (guard : G) (thens : List C) : List (Line G C) :=
  .hashIf guard :: (plain thens ++ [.hashEndif])

def guardedElse (guard : G) (thens elses : List C) : List (Line G C) :=
  .hashIf guard :: (plain thens ++ .hashElse :: (plain elses ++ [.hashEndif]))

def Resolves (holds : G → Bool) (lines : List (Line G C)) (kept : List C) : Prop :=
  ∀ rest, resolve holds [] (lines ++ rest) = (resolve holds [] rest).map (kept ++ ·)

theorem Resolves.resolve {lines : List (Line G C)} {kept : List C}
    (h : Resolves holds lines kept) : resolve holds [] lines = some kept := by
  simpa only [List.append_nil, EmittedSource.resolve, Option.map_some] using h []

theorem Resolves.append {lines lines' : List (Line G C)} {kept kept' : List C}
    (h : Resolves holds lines kept) (h' : Resolves holds lines' kept') :
    Resolves holds (lines ++ lines') (kept ++ kept') := by
  intro rest
  rw [List.append_assoc, h, h', Option.map_map]
  simp only [Function.comp_def, List.append_assoc]

theorem resolve_kept {branches : List Branch} (h : branches.all Branch.kept = true)
    (cs : List C) (rest : List (Line G C)) :
    EmittedSource.resolve holds branches (plain cs ++ rest) =
      (EmittedSource.resolve holds branches rest).map (cs ++ ·) := by
  induction cs with
  | nil => exact Option.map_id'.symm
  | cons c cs ih =>
    have hcons : plain (c :: cs) ++ rest = .code c :: (plain cs ++ rest) := rfl
    rw [hcons, EmittedSource.resolve, if_pos h, ih, Option.map_map]
    rfl

theorem resolve_dropped {branches : List Branch} (h : branches.all Branch.kept = false)
    (cs : List C) (rest : List (Line G C)) :
    EmittedSource.resolve holds branches (plain cs ++ rest) =
      EmittedSource.resolve holds branches rest := by
  induction cs with
  | nil => rfl
  | cons c cs ih =>
    have hcons : plain (c :: cs) ++ rest = .code c :: (plain cs ++ rest) := rfl
    rw [hcons, EmittedSource.resolve, h, if_neg Bool.false_ne_true, ih]

theorem Resolves.plain (cs : List C) : Resolves holds (plain cs) cs :=
  resolve_kept rfl cs

theorem Resolves.guarded (guard : G) (thens : List C) :
    Resolves holds (guarded guard thens) (if holds guard then thens else []) := by
  intro rest
  rw [EmittedSource.guarded, List.cons_append, List.append_assoc, EmittedSource.resolve]
  cases hg : holds guard with
  | true =>
    rw [resolve_kept rfl, List.singleton_append, EmittedSource.resolve]
    rfl
  | false =>
    rw [resolve_dropped rfl, List.singleton_append, EmittedSource.resolve]
    exact Option.map_id'.symm

theorem Resolves.guardedElse (guard : G) (thens elses : List C) :
    Resolves holds (guardedElse guard thens elses) (if holds guard then thens else elses) := by
  intro rest
  rw [EmittedSource.guardedElse, List.cons_append, List.append_assoc, List.cons_append,
    List.append_assoc, EmittedSource.resolve]
  cases hg : holds guard with
  | true =>
    rw [resolve_kept rfl, EmittedSource.resolve, resolve_dropped rfl, List.singleton_append,
      EmittedSource.resolve]
    rfl
  | false =>
    rw [resolve_dropped rfl, EmittedSource.resolve, resolve_kept rfl, List.singleton_append,
      EmittedSource.resolve]
    rfl

end

/-- An expression: the names it reads and the functions it calls, and the text between. -/
inductive Expr (N F : Type) where
  | text (s : String)
  | var (x : N)
  | call (f : F) (args : List (Expr N F))
  | of (s : String) (args : List (Expr N F))

/-- What a source does to the scopes, in the order of the text. A scope that is entered with a
capture list sees nothing else from outside. -/
inductive Event (N F : Type) where
  | read (x : N)
  | declare (x : N)
  | call (f : F) (args : List (Expr N F))
  | enter (captures : Option (List N))
  | leave

section
variable {N F : Type}

mutual

@[simp] def Expr.events : Expr N F → List (Event N F)
  | .text _ => []
  | .var x => [.read x]
  | .call f args => Expr.argEvents args ++ [.call f args]
  | .of _ args => Expr.argEvents args

@[simp] def Expr.argEvents : List (Expr N F) → List (Event N F)
  | [] => []
  | e :: rest => Expr.events e ++ Expr.argEvents rest

end

theorem Expr.argEvents_eq_nil {args : List (Expr N F)} (h : ∀ e ∈ args, e.events = []) :
    Expr.argEvents args = [] := by
  induction args with
  | nil => rfl
  | cons e rest ih =>
    obtain ⟨he, hrest⟩ := List.forall_mem_cons.1 h
    rw [Expr.argEvents, he, ih hrest, List.append_nil]

end

/-- A piece of code: a statement, or the head or the end of a block. -/
inductive Stmt (N F : Type) where
  | declare (type : String) (x : N) (init : Expr N F)
  | expr (e : Expr N F)
  | when (condition e : Expr N F)
  | block (head : Expr N F)
  | forEach (type : String) (x : N) (range : Expr N F)
  | closure (head : Expr N F) (captures params : List N)
  | method (name : String) (params : List N)
  | function (name : String) (params : List N)
  | close

section
variable {N F : Type}

@[simp] def Stmt.events : Stmt N F → List (Event N F)
  | .declare _ x init => init.events ++ [.declare x]
  | .expr e => e.events
  | .when condition e => condition.events ++ e.events
  | .block head => head.events ++ [.enter none]
  | .forEach _ x range => range.events ++ [.enter none, .declare x]
  | .closure head captures params =>
    head.events ++ .enter (some captures) :: params.map .declare
  | .method _ params => .enter none :: params.map .declare
  | .function _ params => .enter (some []) :: params.map .declare
  | .close => [.leave]

def events (code : List (Stmt N F)) : List (Event N F) := code.flatMap Stmt.events

@[simp] theorem events_nil : events ([] : List (Stmt N F)) = [] := rfl

@[simp] theorem events_cons (c : Stmt N F) (code : List (Stmt N F)) :
    events (c :: code) = c.events ++ events code := rfl

@[simp] theorem events_append (code code' : List (Stmt N F)) :
    events (code ++ code') = events code ++ events code' := List.flatMap_append

def calls (es : List (Event N F)) : List (F × List (Expr N F)) :=
  es.filterMap fun
    | .call f args => some (f, args)
    | _ => none

def called (code : List (Stmt N F)) : List F := (calls (events code)).map Prod.fst

theorem calls_append (es es' : List (Event N F)) :
    calls (es ++ es') = calls es ++ calls es' := List.filterMap_append

theorem called_append (code code' : List (Stmt N F)) :
    called (code ++ code') = called code ++ called code' := by
  rw [called, events_append, calls_append, List.map_append]
  rfl

end

/-- The names of one scope; a closed one hides what is around it. -/
structure Frame (N : Type) where
  names : List N
  closed : Bool

section
variable {N F : Type} [DecidableEq N]

@[simp] def Sees (x : N) : List (Frame N) → Prop
  | [] => False
  | f :: outer => x ∈ f.names ∨ f.closed = false ∧ Sees x outer

instance decidableSees (x : N) : (s : List (Frame N)) → Decidable (Sees x s)
  | [] => .isFalse id
  | f :: outer =>
    have := decidableSees x outer
    inferInstanceAs (Decidable (x ∈ f.names ∨ f.closed = false ∧ Sees x outer))

def declareName (x : N) : List (Frame N) → List (Frame N)
  | [] => [⟨[x], false⟩]
  | f :: outer => ⟨x :: f.names, f.closed⟩ :: outer

omit [DecidableEq N] in
@[simp] theorem declareName_cons (x : N) (f : Frame N) (s : List (Frame N)) :
    declareName x (f :: s) = ⟨x :: f.names, f.closed⟩ :: s := rfl

omit [DecidableEq N] in
@[simp] theorem sees_declareName {x y : N} {s : List (Frame N)} :
    Sees y (declareName x s) ↔ y = x ∨ Sees y s := by
  cases s with
  | nil => simp only [declareName, Sees, List.mem_singleton, and_false, or_false]
  | cons f s => simp only [declareName_cons, Sees, List.mem_cons, or_assoc]

/-- Goes through a source from the scopes it stands in to those after it, as long as every name
that is read or captured is seen. -/
@[simp] def run : List (Frame N) → List (Event N F) → Option (List (Frame N))
  | s, [] => some s
  | s, .read x :: es => if Sees x s then run s es else none
  | s, .declare x :: es => run (declareName x s) es
  | s, .call _ _ :: es => run s es
  | s, .enter none :: es => run (⟨[], false⟩ :: s) es
  | s, .enter (some captures) :: es =>
    if ∀ x ∈ captures, Sees x s then run (⟨captures, true⟩ :: s) es else none
  | _ :: s, .leave :: es => run s es
  | [], .leave :: _ => none

theorem run_append (s : List (Frame N)) (es es' : List (Event N F)) :
    run s (es ++ es') = (run s es).bind fun s' => run s' es' := by
  induction es generalizing s with
  | nil => rfl
  | cons e es ih =>
    cases e with
    | read x =>
      simp only [List.cons_append, run]
      split
      · exact ih s
      · rfl
    | declare x => exact ih _
    | call f args => exact ih _
    | enter captures =>
      cases captures with
      | none => exact ih _
      | some captures =>
        simp only [List.cons_append, run]
        split
        · exact ih _
        · rfl
    | leave =>
      cases s with
      | nil => rfl
      | cons f s => exact ih s

theorem run_events_append {s s' s'' : List (Frame N)} {code code' : List (Stmt N F)}
    (h : run s (events code) = some s') (h' : run s' (events code') = some s'') :
    run s (events (code ++ code')) = some s'' := by
  rw [events_append, run_append, h, Option.bind_some, h']

omit [DecidableEq N] in
theorem Sees.ite_declareName {x y : N} {s : List (Frame N)} {c : Bool} (h : Sees x s) :
    Sees x (if c then s else declareName y s) := by
  cases c with
  | true => exact h
  | false => exact sees_declareName.2 (.inr h)

omit [DecidableEq N] in
theorem Sees.known {x : N} {s : List (Frame N)} (h : Sees x s) : ∃ f ∈ s, x ∈ f.names := by
  induction s with
  | nil => exact h.elim
  | cons f outer ih =>
    obtain hf | ⟨_, houter⟩ := h
    · exact ⟨f, List.mem_cons_self .., hf⟩
    · obtain ⟨f', hf', hx⟩ := ih houter
      exact ⟨f', List.mem_cons_of_mem _ hf', hx⟩

omit [DecidableEq N] in
theorem known_declareName {x y : N} {s : List (Frame N)}
    (h : ∃ f ∈ declareName y s, x ∈ f.names) : x = y ∨ ∃ f ∈ s, x ∈ f.names := by
  cases s with
  | nil =>
    obtain ⟨f, hf, hx⟩ := h
    obtain rfl := List.mem_singleton.1 hf
    exact .inl (List.mem_singleton.1 hx)
  | cons f outer =>
    obtain ⟨f', hf', hx⟩ := h
    obtain rfl | houter := List.mem_cons.1 hf'
    · exact (List.mem_cons.1 hx).imp_right fun hold => ⟨f, List.mem_cons_self .., hold⟩
    · exact .inr ⟨f', List.mem_cons_of_mem _ houter, hx⟩

omit [DecidableEq N] in
theorem known_enter {x : N} {g : Frame N} {s : List (Frame N)} (hg : ∀ y ∈ g.names, Sees y s)
    (h : ∃ f ∈ g :: s, x ∈ f.names) : ∃ f ∈ s, x ∈ f.names := by
  obtain ⟨f, hf, hx⟩ := h
  obtain rfl | hs := List.mem_cons.1 hf
  · exact (hg x hx).known
  · exact ⟨f, hs, hx⟩

theorem known_of_run {x : N} {s s' : List (Frame N)} {es : List (Event N F)}
    (h : run s es = some s') (hx : ∃ f ∈ s', x ∈ f.names) :
    (∃ f ∈ s, x ∈ f.names) ∨ .declare x ∈ es := by
  induction es generalizing s with
  | nil =>
    obtain rfl := Option.some.inj h
    exact .inl hx
  | cons e es ih =>
    cases e with
    | read y =>
      rw [run] at h
      obtain ⟨_, hrest⟩ := Option.ite_none_right_eq_some.1 h
      exact (ih hrest).imp_right (List.mem_cons_of_mem _)
    | declare y =>
      obtain hknown | hdeclared := ih h
      · obtain rfl | hold := known_declareName hknown
        · exact .inr (List.mem_cons_self ..)
        · exact .inl hold
      · exact .inr (List.mem_cons_of_mem _ hdeclared)
    | call f args => exact (ih h).imp_right (List.mem_cons_of_mem _)
    | enter captures =>
      cases captures with
      | none =>
        have hempty : ∀ y ∈ ([] : List N), Sees y s := nofun
        exact (ih h).imp (known_enter hempty) (List.mem_cons_of_mem _)
      | some xs =>
        rw [run] at h
        obtain ⟨hall, hrest⟩ := Option.ite_none_right_eq_some.1 h
        exact (ih hrest).imp (known_enter hall) (List.mem_cons_of_mem _)
    | leave =>
      cases s with
      | nil => cases h
      | cons f outer =>
        refine (ih h).imp (fun ⟨f', hf', hxf⟩ => ?_) (List.mem_cons_of_mem _)
        exact ⟨f', List.mem_cons_of_mem _ hf', hxf⟩

theorem read_of_run {x : N} {s s' : List (Frame N)} {before after : List (Event N F)}
    (h : run s (before ++ .read x :: after) = some s') :
    ∃ s₁, run s before = some s₁ ∧ Sees x s₁ := by
  rw [run_append] at h
  obtain ⟨s₁, hs₁, hread⟩ := Option.bind_eq_some_iff.1 h
  rw [run] at hread
  exact ⟨s₁, hs₁, (Option.ite_none_right_eq_some.1 hread).1⟩

/-- Every name is declared before it is read, in a scope that is open there; whatever a closure
captures is declared where the closure stands; and every scope that is entered is left. -/
structure WellScoped (s : List (Frame N)) (es : List (Event N F)) : Prop where
  reads : ∀ before x after, es = before ++ .read x :: after →
    ∃ s', run s before = some s' ∧ Sees x s'
  captures : ∀ before xs after, es = before ++ .enter (some xs) :: after →
    ∃ s', run s before = some s' ∧ ∀ x ∈ xs, Sees x s'
  left : run s es = some s

theorem wellScoped_of_run {s : List (Frame N)} {es : List (Event N F)}
    (h : run s es = some s) : WellScoped s es where
  reads before x after he := read_of_run (he ▸ h)
  captures before xs after he := by
    rw [he, run_append] at h
    obtain ⟨s', hs', henter⟩ := Option.bind_eq_some_iff.1 h
    rw [run] at henter
    exact ⟨s', hs', (Option.ite_none_right_eq_some.1 henter).1⟩
  left := h

/-- What a closure reads it has captured, or declared itself. -/
theorem captured_or_declared {xs : List N} {x : N} {s' : List (Frame N)}
    {before after : List (Event N F)}
    (h : run [⟨xs, true⟩] (before ++ .read x :: after) = some s') :
    x ∈ xs ∨ .declare x ∈ before := by
  obtain ⟨s₁, hs₁, hx⟩ := read_of_run h
  refine (known_of_run hs₁ hx.known).imp_left fun ⟨f, hf, hxf⟩ => ?_
  obtain rfl := List.mem_singleton.1 hf
  exact hxf

end

end EmittedSource
