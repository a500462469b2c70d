import LogosPluginQt.Interleaving

namespace Interleaving
set_option autoImplicit true

section
variable {A : Type} {Ans : A → Type} {α K S G : Type}

/-- What is written down of a system as it goes on. The record answers nothing, and nothing
waits for it. -/
structure Recorder (sys : System Ans α S) (G : Type) where
  exec : Nat → (a : A) → Ans a → G → G
  enter : Nat → S × G → Option A → Prog Ans α → S × G → Prop
  entered : ∀ {t s within p s'}, enter t s within p s' → sys.enter t s.1 within p s'.1
  enters : ∀ {t s within p s'}, sys.enter t s within p s' →
    ∀ g, ∃ g', enter t (s, g) within p (s', g')

def Recorder.system {sys : System Ans α S} (record : Recorder sys G) : System Ans α (S × G) where
  exec t s a r s' := sys.exec t s.1 a r s'.1 ∧ s'.2 = record.exec t a r s.2
  enter := record.enter

variable {sys : System Ans α S} {record : Recorder sys G} {s₀ : S} {g₀ : G}

/-- Without its record, a recorded run is a run. -/
theorem Reachable.erase {c : Config Ans α (S × G)} (h : Reachable record.system (s₀, g₀) c) :
    Reachable sys s₀ ⟨c.shared.1, c.stack⟩ := by
  induction h with
  | refl => exact .refl _ _
  | tail _ hs ih =>
    apply ih.step
    cases hs with
    | run hp he => exact .run hp he.1
    | leave hp => exact .leave hp
    | enter hp he => exact .enter hp (record.entered he)
    | nest hp he => exact .nest hp (record.entered he)

/-- Every run can be recorded. -/
theorem Reachable.recorded {c : Config Ans α S} (h : Reachable sys s₀ c)
    (record : Recorder sys G) (g₀ : G) :
    ∃ g, Reachable record.system (s₀, g₀) ⟨(c.shared, g), c.stack⟩ := by
  induction h with
  | refl => exact ⟨g₀, .refl _ _⟩
  | tail _ hs ih =>
    obtain ⟨g, hg⟩ := ih
    cases hs with
    | run hp he => exact ⟨_, hg.step (.run hp ⟨he, rfl⟩)⟩
    | leave hp => exact ⟨g, hg.step (.leave hp)⟩
    | enter hp he =>
      obtain ⟨g', hg'⟩ := record.enters he g
      exact ⟨g', hg.step (.enter hp hg')⟩
    | nest hp he =>
      obtain ⟨g', hg'⟩ := record.enters he g
      exact ⟨g', hg.step (.nest hp hg')⟩

inductive Prog.MayReturn : Prog Ans α → α → Prop where
  | ret (x : α) : MayReturn (.ret x) x
  | act {a : A} {next : Ans a → Prog Ans α} {x : α} (r : Ans a) :
      MayReturn (next r) x → MayReturn (.act a next) x

theorem Follows.mayReturn {next : K → (a : A) → Ans a → Option K} {post : α → K → Prop}
    {p : Prog Ans α} {κ : K} (h : Follows next post p κ) :
    Follows next (fun x κ' => post x κ' ∧ p.MayReturn x) p κ := by
  induction p generalizing κ with
  | ret x => exact ⟨h, .ret x⟩
  | act a rest ih =>
    intro r
    obtain ⟨κ', hn, hr⟩ := h r
    exact ⟨κ', hn, (ih r hr).mono fun x κ'' hx => ⟨hx.1, .act r hx.2⟩⟩

end

end Interleaving
