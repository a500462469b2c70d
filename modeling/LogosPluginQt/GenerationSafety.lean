import LogosPluginQt.Generation
import Mathlib.Data.List.Forall2

namespace LogosPluginQt
open ShellScript GenerationInput
set_option autoImplicit true

section
variable {α β ε : Type}

theorem mapM_ok {f : α → Except ε β} {l : List α} {r : List β} :
    l.mapM f = .ok r ↔ List.Forall₂ (fun a b => f a = .ok b) l r := by
  induction l generalizing r with
  | nil =>
    rw [List.mapM_nil, List.forall₂_nil_left_iff]
    constructor
    · rintro ⟨⟩
      rfl
    · rintro rfl
      rfl
  | cons a l ih =>
    rw [List.mapM_cons, List.forall₂_cons_left_iff]
    cases ha : f a with
    | error e =>
      refine iff_of_false nofun ?_
      rintro ⟨_, _, hb, _⟩
      cases hb
    | ok b =>
      cases hl : l.mapM f with
      | error e =>
        refine iff_of_false nofun ?_
        rintro ⟨_, r', _, hr, rfl⟩
        rw [ih.2 hr] at hl
        cases hl
      | ok r' =>
        constructor
        · rintro ⟨⟩
          exact ⟨b, r', rfl, ih.1 hl, rfl⟩
        · rintro ⟨_, r'', ⟨⟩, hr, rfl⟩
          rw [ih.2 hr] at hl
          cases hl
          rfl

end

def shipped (n : String) : GenDir :=
  if globMatch ".h" n || globMatch ".cpp" n then .include else .generatedCode

section
variable {gens : Generators} {g : GenerationInput} {script : GenScript} {s s' s₀ : GenTree}
  {E : Nat → GenTree → Prop} {e : ConsumerSpec} {input : ContractInput} {n : String}

theorem assertConsumerApiStyle_ok {c : ModuleConfig} (h : c.assertConsumerApiStyle = .ok ()) :
    c.apiStyle = "lp" → c.packagedAsCdylib = true := by
  intro hlp
  by_contra hplugin
  rw [ModuleConfig.assertConsumerApiStyle, hlp, eq_false_of_ne_true hplugin] at h
  cases h

def specScript (g : GenerationInput) (e : ConsumerSpec) : GenScript :=
  match e.contractInput with
  | .ok input => g.consumerScript e input
  | .error _ => .skip

/-- What the expression has checked where it comes to a script, and the script. -/
inductive Generates (g : GenerationInput) : GenScript → Prop where
  | lp : g.config.isQt = false → Generates g (.seq (.run (.cpp ⟨g.config.apiStyle, false,
      .generatedCode, g.interfaceDeps, g.staticDeps⟩)) organize)
  | qt : g.config.isQt = true → (∀ e ∈ g.consumerSpecs, ∃ input, e.contractInput = .ok input) →
      Generates g (.seq (.seq (inFresh .umbrella (.seq (.run (.cpp g.umbrellaCall)) takeUmbrella))
        (inFresh .scratch (.all (g.consumerSpecs.map (specScript g))))) organize)

theorem qtConsumerCall_ok (h : g.qtConsumerCall e = .ok script) :
    script = specScript g e ∧ ∃ input, e.contractInput = .ok input := by
  unfold GenerationInput.qtConsumerCall at h
  unfold specScript
  cases he : e.contractInput with
  | error error =>
    rw [he] at h
    cases h
  | ok input =>
    rw [he] at h
    cases h
    exact ⟨rfl, input, rfl⟩

theorem consumers_ok {specs : List ConsumerSpec} {scripts : List GenScript}
    (h : specs.mapM g.qtConsumerCall = .ok scripts) :
    scripts = specs.map (specScript g) ∧
      ∀ e ∈ specs, ∃ input, e.contractInput = .ok input := by
  have hall := mapM_ok.1 h
  induction hall with
  | nil => exact ⟨rfl, nofun⟩
  | @cons e script specs scripts he _ ih =>
    obtain ⟨rfl, hinput⟩ := qtConsumerCall_ok he
    obtain ⟨rfl, hrest⟩ := ih (mapM_ok.2 ‹_›)
    exact ⟨rfl, List.forall_mem_cons.2 ⟨hinput, hrest⟩⟩

theorem generationScript_ok (h : g.generationScript = .ok script) :
    g.config.assertConsumerApiStyle = .ok () ∧ g.assertNoLegacyHeaderDeps = .ok () ∧
      Generates g script := by
  unfold GenerationInput.generationScript at h
  cases hstyle : g.config.assertConsumerApiStyle with
  | error error =>
    rw [hstyle] at h
    cases h
  | ok =>
    cases hlegacy : g.assertNoLegacyHeaderDeps with
    | error error =>
      rw [hstyle, hlegacy] at h
      cases h
    | ok =>
      refine ⟨rfl, rfl, ?_⟩
      rw [hstyle, hlegacy] at h
      unfold GenerationInput.generatorCalls at h
      cases hqt : g.config.isQt with
      | false =>
        rw [hqt] at h
        cases h
        exact .lp hqt
      | true =>
        rw [hqt] at h
        cases hcalls : g.consumerSpecs.mapM g.qtConsumerCall with
        | error error =>
          rw [hcalls] at h
          cases h
        | ok scripts =>
          rw [hcalls] at h
          obtain ⟨rfl, hinputs⟩ := consumers_ok hcalls
          cases h
          exact .qt hqt hinputs

/-! What each part of the script does to the generated code. -/

def Wrote (author : Author) (n : String) (dir : String → Option BuiltFile) : Prop :=
  ∃ f, dir n = some f ∧ f.text ≠ "" ∧ f.author = author

theorem nonEmpty_iff {d : GenDir} :
    nonEmpty d n s = true ↔ ∃ f, s d n = some f ∧ f.text ≠ "" := by
  simp only [nonEmpty, Option.any_eq_true, bne_iff_ne]

theorem triple_edit {f : GenTree → GenTree} {P Q : GenTree → Prop} (h : ∀ s, P s → Q (f s)) :
    Triple gens.exec P (.edit fun s => some (f s)) Q E := by
  apply Triple.edit
  · rintro s _ hs ⟨⟩
    exact h s hs
  · exact fun _ _ h => absurd h nofun

structure Consuming (dir₀ dir : String → Option BuiltFile) : Prop where
  umbrella : ∀ u ∈ umbrellaFiles, Wrote .cppGenerator u dir
  origin : ∀ n ∉ umbrellaFiles, ∀ f, dir n = some f → f.author = .qtGenerator ∨ dir₀ n = some f

def HasWrapper (e : ConsumerSpec) (dir : String → Option BuiltFile) : Prop :=
  ∀ n ∈ apiFiles e.name, ∃ f, dir n = some f ∧ f.text ≠ ""

theorem synthMeta_keeps {P : (String → Option BuiltFile) → Prop} :
    Triple gens.exec (fun s => P (s .generatedCode)) (synthMeta e)
      (fun s => P (s .generatedCode)) E := by
  unfold GenerationInput.synthMeta
  split
  · apply triple_edit
    intro s hs
    have hgen : Tree.put s .scratch "meta.json" (some ⟨.script, "\x7b\"name\":\"" ++ e.name ++
        "\"\x7d"⟩) .generatedCode = s .generatedCode := by
      funext n
      exact Tree.put_of_ne (.inl nofun)
    rwa [hgen]
  · exact .skip fun _ => id

theorem Consuming.wrapper {call : QtCall} {status : Nat} {dir₀ : String → Option BuiltFile}
    (h : Consuming dir₀ (s .generatedCode)) (hd : call.outputDir = .generatedCode)
    (he : gens.exec (.qt call) s status s') : Consuming dir₀ (s' .generatedCode) := by
  have hkept (n : String) (hn : n ∉ apiFiles call.module) :
      s' .generatedCode n = s .generatedCode n := by
    rw [← hd]
    exact gens.consumer he n hn
  constructor
  · intro u hu
    rw [Wrote, hkept u fun hn => apiFiles_ne_umbrella hn hu]
    exact h.umbrella u hu
  · intro n hn f hf
    have hnew : s .generatedCode n = some f ∨ f.author = .qtGenerator := by
      have hauthored := gens.authored he n f
      rw [GeneratorCall.outputDir, hd] at hauthored
      exact hauthored hf
    obtain hold | hqt := hnew
    · exact h.origin n hn f hold
    · exact .inl hqt

theorem consumerScript_checks {P : (String → Option BuiltFile) → Prop}
    (hP : ∀ s status s', P (s .generatedCode) →
      gens.exec (.qt ⟨input, e.name, e.bind, g.config.originBound, .generatedCode⟩) s status s' →
      P (s' .generatedCode)) :
    Triple gens.exec (fun s => P (s .generatedCode)) (g.consumerScript e input)
      (fun s => P (s .generatedCode) ∧ HasWrapper e (s .generatedCode))
      fun _ s => P (s .generatedCode) := by
  apply Triple.seq synthMeta_keeps
  apply Triple.seq (R := fun s => P (s .generatedCode))
  · exact .run (fun s s' hs he => hP s 0 s' hs he) fun s status s' hs he _ => hP s status s' hs he
  · refine .require (fun s hs ht => ⟨hs, fun n hn => ?_⟩) fun s hs _ => hs
    exact nonEmpty_iff.1 (List.all_eq_true.1 ht n hn)

/-- The check for one wrapper is not undone by the generation of another. -/
theorem consumerScript_keeps {dir₀ : String → Option BuiltFile} {e' : ConsumerSpec} :
    Triple gens.exec
      (fun s => Consuming dir₀ (s .generatedCode) ∧ HasWrapper e' (s .generatedCode))
      (g.consumerScript e input)
      (fun s => Consuming dir₀ (s .generatedCode) ∧ HasWrapper e' (s .generatedCode))
      fun _ _ => True := by
  -- of the other wrapper, what this run does not write itself
  let Rest (dir : String → Option BuiltFile) : Prop :=
    Consuming dir₀ dir ∧ ∀ n ∈ apiFiles e'.name, n ∉ apiFiles e.name →
      ∃ f, dir n = some f ∧ f.text ≠ ""
  have hkept : Triple gens.exec (fun s => Rest (s .generatedCode)) (g.consumerScript e input)
      (fun s => Rest (s .generatedCode) ∧ HasWrapper e (s .generatedCode))
      fun _ s => Rest (s .generatedCode) := consumerScript_checks ?_
  · refine hkept.conseq (fun s hs => ⟨hs.1, fun n hn _ => hs.2 n hn⟩) ?_ fun _ _ _ => trivial
    intro s hs
    refine ⟨hs.1.1, fun n hn => ?_⟩
    by_cases hown : n ∈ apiFiles e.name
    · exact hs.2 n hown
    · exact hs.1.2 n hn hown
  · intro s status s' hs he
    refine ⟨hs.1.wrapper rfl he, fun n hn hother => ?_⟩
    have hframe : s' .generatedCode n = s .generatedCode n := gens.consumer he n hother
    rw [hframe]
    exact hs.2 n hn hother

theorem specScript_wraps (g : GenerationInput) (dir₀ : String → Option BuiltFile)
    {specs : List ConsumerSpec} (hspecs : ∀ e ∈ specs, ∃ input, e.contractInput = .ok input) :
    Triple gens.exec (fun s => Consuming dir₀ (s .generatedCode))
      (.all (specs.map (specScript g)))
      (fun s => Consuming dir₀ (s .generatedCode) ∧
        ∀ e ∈ specs, HasWrapper e (s .generatedCode)) fun _ _ => True := by
  apply Triple.each
  · intro e he
    obtain ⟨input, hinput⟩ := hspecs e he
    rw [specScript, hinput]
    exact (consumerScript_checks fun s status s' hs he => hs.wrapper rfl he).conseq
      (fun _ => id) (fun _ => id) fun _ _ _ => trivial
  · intro e he e' _
    obtain ⟨input, hinput⟩ := hspecs e he
    rw [specScript, hinput]
    exact consumerScript_keeps

theorem inFresh_rule {d : GenDir} {P Q : (String → Option BuiltFile) → Prop}
    (hd : d ≠ .generatedCode)
    (h : Triple gens.exec (fun s => P (s .generatedCode) ∧ ∀ n, s d n = none) script
      (fun s => Q (s .generatedCode)) E) :
    Triple gens.exec (fun s => P (s .generatedCode)) (inFresh d script)
      (fun s => Q (s .generatedCode)) E := by
  have hkept (s : GenTree) : Tree.clear s d .generatedCode = s .generatedCode :=
    Tree.clear_of_ne hd.symm
  refine .seq (triple_edit ?_) (.seq h (triple_edit ?_))
  · intro s hs
    rw [hkept]
    exact ⟨hs, fun _ => Tree.clear_self ..⟩
  · intro s hs
    rwa [hkept]

structure TakingUmbrella (dir₀ : String → Option BuiltFile) (s : GenTree) : Prop where
  kept : ∀ n ∉ umbrellaFiles, s .generatedCode n = dir₀ n
  authored : ∀ n f, s .umbrella n = some f → f.author = .cppGenerator

theorem takeUmbrella_takes (dir₀ : String → Option BuiltFile) :
    Triple gens.exec (TakingUmbrella dir₀) takeUmbrella (fun s => TakingUmbrella dir₀ s ∧
      ∀ u ∈ umbrellaFiles, Wrote .cppGenerator u (s .generatedCode)) fun _ _ => True := by
  have hcopied {s : GenTree} {u : String} (hu : u ∈ umbrellaFiles) {f : BuiltFile}
      (hs : TakingUmbrella dir₀ s) :
      TakingUmbrella dir₀ (s.put .generatedCode u (some f)) := by
    constructor
    · intro n hn
      have hne : n ≠ u := by
        rintro rfl
        exact hn hu
      rw [Tree.put_of_ne (.inr hne)]
      exact hs.kept n hn
    · intro n f' hf
      rw [Tree.put_of_ne (.inl (by decide))] at hf
      exact hs.authored n f' hf
  apply Triple.each
  · intro u hu
    apply Triple.seq (R := fun s => TakingUmbrella dir₀ s ∧ nonEmpty .umbrella u s = true)
    · exact .require (fun _ hs ht => ⟨hs, ht⟩) fun _ _ _ => trivial
    · refine .edit ?_ fun _ _ _ => trivial
      intro s s' hs hcopy
      obtain ⟨f, hf, rfl⟩ := Option.map_eq_some_iff.1 hcopy
      obtain ⟨f', hf', htext⟩ := nonEmpty_iff.1 hs.2
      obtain rfl := Option.some.inj (hf.symm.trans hf')
      exact ⟨hcopied hu hs.1, f, Tree.put_self .., htext, hs.1.authored u f hf⟩
  · intro u hu u' _
    apply Triple.seq (R := fun s => (TakingUmbrella dir₀ s ∧
      Wrote .cppGenerator u' (s .generatedCode)) ∧ nonEmpty .umbrella u s = true)
    · exact .require (fun _ hs ht => ⟨hs, ht⟩) fun _ _ _ => trivial
    · refine .edit ?_ fun _ _ _ => trivial
      intro s s' hs hcopy
      obtain ⟨f, hf, rfl⟩ := Option.map_eq_some_iff.1 hcopy
      refine ⟨hcopied hu hs.1.1, ?_⟩
      by_cases he : u' = u
      · subst u'
        obtain ⟨f', hf', htext⟩ := nonEmpty_iff.1 hs.2
        obtain rfl := Option.some.inj (hf.symm.trans hf')
        exact ⟨f, Tree.put_self .., htext, hs.1.1.authored u f hf⟩
      · rw [Wrote, Tree.put_of_ne (.inr he)]
        exact hs.1.2

theorem umbrella_arrives (g : GenerationInput) (dir₀ : String → Option BuiltFile) :
    Triple gens.exec (fun s => s .generatedCode = dir₀)
      (inFresh .umbrella (.seq (.run (.cpp g.umbrellaCall)) takeUmbrella))
      (fun s => Consuming dir₀ (s .generatedCode)) fun _ _ => True := by
  apply inFresh_rule (P := fun dir => dir = dir₀) (by decide)
  apply Triple.seq (R := TakingUmbrella dir₀)
  · refine .run ?_ fun _ _ _ _ _ _ => trivial
    rintro s s' ⟨rfl, hempty⟩ he
    refine ⟨fun n _ => congrFun (gens.frame he .generatedCode nofun) n, fun n f hf => ?_⟩
    obtain hold | hnew := gens.authored he n f hf
    · have hnone : s (GeneratorCall.cpp g.umbrellaCall).outputDir n = none := hempty n
      rw [hnone] at hold
      cases hold
    · exact hnew
  · refine (takeUmbrella_takes dir₀).conseq (fun _ => id) ?_ fun _ _ => id
    rintro s ⟨hs, hwrote⟩
    refine ⟨hwrote, fun n hn f hf => .inr ?_⟩
    rw [← hs.kept n hn]
    exact hf

/-- The umbrella first, and then a wrapper for every specification. -/
theorem consumers_arrive (g : GenerationInput) (dir₀ : String → Option BuiltFile)
    (hinputs : ∀ e ∈ g.consumerSpecs, ∃ input, e.contractInput = .ok input) :
    Triple gens.exec (fun s => s .generatedCode = dir₀)
      (.seq (inFresh .umbrella (.seq (.run (.cpp g.umbrellaCall)) takeUmbrella))
        (inFresh .scratch (.all (g.consumerSpecs.map (specScript g)))))
      (fun s => Consuming dir₀ (s .generatedCode) ∧
        ∀ e ∈ g.consumerSpecs, HasWrapper e (s .generatedCode)) fun _ _ => True := by
  apply Triple.seq (umbrella_arrives g dir₀)
  apply inFresh_rule (Q := fun dir => Consuming dir₀ dir ∧ ∀ e ∈ g.consumerSpecs, HasWrapper e dir)
    (by decide)
  exact (specScript_wraps g dir₀ hinputs).conseq (fun _ => And.left) (fun _ => id) fun _ _ => id

theorem organize_ships (n : String) (f : BuiltFile) :
    Triple gens.exec (fun s => (s .generatedCode "logos_sdk.h").isSome = true ∧
        s .generatedCode n = some f) organize (fun s => s (shipped n) n = some f) E := by
  apply Triple.ite
  · apply Triple.seq (R := fun s => if globMatch ".h" n then s .include n = some f ∧
      s .generatedCode n = none else s .generatedCode n = some f)
    · apply triple_edit
      rintro s ⟨⟨_, hf⟩, _⟩
      rw [Tree.moveAll_source]
      cases hglob : globMatch ".h" n with
      | false => exact hf
      | true =>
        refine ⟨?_, rfl⟩
        rw [Tree.moveAll_of_ne (by decide)]
        exact Tree.copyAll_selected hglob hf
    · apply triple_edit
      intro s hs
      rw [shipped]
      cases hglob : globMatch ".h" n with
      | true =>
        rw [hglob] at hs
        rw [Bool.true_or, if_pos rfl, Tree.copyAll, Function.update_self, hs.2, hs.1]
        simp only [Option.isSome_none, Bool.and_false, Bool.false_eq_true, ↓reduceIte]
      | false =>
        rw [hglob] at hs
        cases hcpp : globMatch ".cpp" n with
        | true => exact Tree.copyAll_selected hcpp hs
        | false =>
          simp only [Bool.or_self, Bool.false_eq_true, ↓reduceIte]
          rw [Tree.copyAll_of_ne (by decide)]
          exact hs
  · apply Triple.skip
    rintro s ⟨⟨hsdk, _⟩, hnone⟩
    rw [hsdk, Bool.or_true] at hnone
    cases hnone

section
variable {g : GenerationInput} {script : GenScript} {s s' : GenTree}

theorem consumers_shipped (hscript : g.generationScript = .ok script)
    (hqt : g.config.isQt = true) (hrun : Exec gens.exec s script none s') :
    ∃ dir, (Consuming (s .generatedCode) dir ∧ ∀ e ∈ g.consumerSpecs, HasWrapper e dir) ∧
      ∀ n f, dir n = some f → s' (shipped n) n = some f := by
  obtain ⟨_, _, hgen⟩ := generationScript_ok hscript
  cases hgen with
  | lp hlp =>
    rw [hqt] at hlp
    cases hlp
  | qt _ hinputs =>
    cases hrun with
    | seq hcalls horg =>
      have hready := (consumers_arrive g (s .generatedCode) hinputs s none _ rfl hcalls).1 rfl
      obtain ⟨f₀, hf₀, _⟩ := hready.1.umbrella "logos_sdk.h" (List.mem_cons_self ..)
      have hsome := Option.isSome_iff_exists.2 ⟨f₀, hf₀⟩
      exact ⟨_, hready, fun n f hf =>
        (organize_ships (E := fun _ _ => True) n f _ _ _ ⟨hsome, hf⟩ horg).1 rfl⟩

theorem shipped_umbrella {u : String} (hu : u ∈ umbrellaFiles) : shipped u = .include := by
  obtain rfl | hu := List.mem_cons.1 hu
  · rfl
  · obtain rfl := List.mem_singleton.1 hu
    rfl

theorem umbrella_shipped (hscript : g.generationScript = .ok script)
    (hqt : g.config.isQt = true) (hrun : Exec gens.exec s script none s') :
    ∀ u ∈ umbrellaFiles, Wrote .cppGenerator u (s' .include) := by
  obtain ⟨dir, hready, hship⟩ := consumers_shipped hscript hqt hrun
  intro u hu
  obtain ⟨f, hf, htext, hauthor⟩ := hready.1.umbrella u hu
  rw [← shipped_umbrella hu]
  exact ⟨f, hship u f hf, htext, hauthor⟩

theorem wrappers_shipped (hscript : g.generationScript = .ok script)
    (hqt : g.config.isQt = true) (hrun : Exec gens.exec s script none s') :
    ∀ e ∈ g.consumerSpecs, ∀ n ∈ apiFiles e.name, ∃ f, s' (shipped n) n = some f ∧ f.text ≠ "" ∧
      (f.author = .qtGenerator ∨ s .generatedCode n = some f) := by
  obtain ⟨dir, hready, hship⟩ := consumers_shipped hscript hqt hrun
  intro e he n hn
  obtain ⟨f, hf, htext⟩ := hready.2 e he n hn
  exact ⟨f, hship n f hf, htext, hready.1.origin n (apiFiles_ne_umbrella hn) f hf⟩

end

/-- A generation in the Qt style that ends well has the umbrella and a wrapper for every dependency
and interface, whatever the generators did: each file has something in it, the umbrella comes
from `logos-cpp-generator`, and a wrapper from `logos-qt-generator` unless it lay in the source
all along. -/
theorem generation_wraps {gens : Generators} {g : GenerationInput} {script : GenScript}
    {s s' : GenTree} (hscript : g.generationScript = .ok script)
    (hqt : g.config.isQt = true) (hrun : Exec gens.exec s script none s') :
    (∀ u ∈ umbrellaFiles, Wrote .cppGenerator u (s' .include)) ∧
    ∀ e ∈ g.consumerSpecs, ∀ n ∈ apiFiles e.name, ∃ f, s' (shipped n) n = some f ∧ f.text ≠ "" ∧
      (f.author = .qtGenerator ∨ s .generatedCode n = some f) :=
  ⟨umbrella_shipped hscript hqt hrun, wrappers_shipped hscript hqt hrun⟩

/-! With generators that write what they are called for, a generation ends well. -/

variable {text : String}

theorem write_self {call : GeneratorCall} (hn : n ∈ call.files) :
    call.write text s call.outputDir n = some ⟨call.author, text⟩ := by
  rw [GeneratorCall.write, Function.update_self, if_pos hn]

theorem all_ends {tool : GeneratorCall → GenTree → Nat → GenTree → Prop} {P : GenTree → Prop}
    {scripts : List GenScript}
    (h : ∀ a ∈ scripts, ∀ s, P s → ∃ s', Exec tool s a none s' ∧ P s') (hs : P s) :
    ∃ s', Exec tool s (.all scripts) none s' ∧ P s' := by
  induction scripts generalizing s with
  | nil => exact ⟨s, .skip s, hs⟩
  | cons a scripts ih =>
    obtain ⟨ha, hrest⟩ := List.forall_mem_cons.1 h
    obtain ⟨s₁, h₁, hs₁⟩ := ha s hs
    obtain ⟨s₂, h₂, hs₂⟩ := ih hrest hs₁
    exact ⟨s₂, .seq h₁ h₂, hs₂⟩

theorem specScript_ends (htext : text ≠ "") (g : GenerationInput) (e : ConsumerSpec) (s : GenTree) :
    ∃ s', Exec (Generators.writing text).exec s (specScript g e) none s' := by
  unfold specScript
  cases e.contractInput with
  | error => exact ⟨s, .skip s⟩
  | ok input =>
    obtain ⟨s₁, h₁⟩ : ∃ s₁, Exec (Generators.writing text).exec s (synthMeta e) none s₁ := by
      unfold GenerationInput.synthMeta
      split
      · exact ⟨_, .edit rfl⟩
      · exact ⟨s, .skip s⟩
    let call : GeneratorCall :=
      .qt ⟨input, e.name, e.bind, g.config.originBound, .generatedCode⟩
    refine ⟨call.write text s₁, .seq h₁ (.seq (.run ⟨rfl, rfl⟩) (.yes ?_ (.skip _)))⟩
    apply List.all_eq_true.2
    intro n hn
    exact nonEmpty_iff.2 ⟨_, write_self hn, htext⟩

theorem takeUmbrella_ends {tool : GeneratorCall → GenTree → Nat → GenTree → Prop}
    (hs : ∀ u ∈ umbrellaFiles, nonEmpty .umbrella u s = true) :
    ∃ s', Exec tool s takeUmbrella none s' := by
  have hall : ∃ s', Exec tool s takeUmbrella none s' ∧
      ∀ u ∈ umbrellaFiles, nonEmpty .umbrella u s' = true := all_ends ?_ hs
  · obtain ⟨s', h, _⟩ := hall
    exact ⟨s', h⟩
  · intro script hscript s hs
    obtain ⟨u, hu, rfl⟩ := List.mem_map.1 hscript
    obtain ⟨f, hf, _⟩ := nonEmpty_iff.1 (hs u hu)
    refine ⟨s.put .generatedCode u (some f), .seq (.yes (hs u hu) (.skip _)) (.edit ?_), ?_⟩
    · rw [Tree.copy, hf]
      rfl
    · intro u' hu'
      obtain ⟨f', hf', htext⟩ := nonEmpty_iff.1 (hs u' hu')
      refine nonEmpty_iff.2 ⟨f', ?_, htext⟩
      rw [Tree.put_of_ne (.inl (by decide))]
      exact hf'

theorem organize_ends {tool : GeneratorCall → GenTree → Nat → GenTree → Prop} (s : GenTree) :
    ∃ s', Exec tool s organize none s' := by
  let test (s : GenTree) : Bool := (s .generatedCode "core_manager_api.h").isSome ||
    (s .generatedCode "logos_sdk.h").isSome
  cases h : test s with
  | true => exact ⟨_, .yes h (.seq (.edit rfl) (.edit rfl))⟩
  | false => exact ⟨s, .no h (.skip s)⟩

/-- With generators that do their work, every script there is comes to its end. -/
theorem generation_ends (htext : text ≠ "") (hscript : g.generationScript = .ok script)
    (s : GenTree) : ∃ s', Exec (Generators.writing text).exec s script none s' := by
  obtain ⟨_, _, hgen⟩ := generationScript_ok hscript
  cases hgen with
  | lp =>
    obtain ⟨s', h⟩ := @organize_ends (Generators.writing text).exec
      ((GeneratorCall.cpp ⟨g.config.apiStyle, false, .generatedCode, g.interfaceDeps,
        g.staticDeps⟩).write text s)
    exact ⟨s', .seq (.run ⟨rfl, rfl⟩) h⟩
  | qt =>
    let call : GeneratorCall := .cpp g.umbrellaCall
    obtain ⟨s₁, h₁⟩ := @takeUmbrella_ends (call.write text (s.clear .umbrella))
      (Generators.writing text).exec
      fun u hu => nonEmpty_iff.2 ⟨_, write_self hu, htext⟩
    have hspec : ∀ a ∈ g.consumerSpecs.map (specScript g), ∀ s, True →
        ∃ s', Exec (Generators.writing text).exec s a none s' ∧ True := by
      intro a ha s _
      obtain ⟨e, _, rfl⟩ := List.mem_map.1 ha
      obtain ⟨s', h⟩ := specScript_ends htext g e s
      exact ⟨s', h, trivial⟩
    obtain ⟨s₂, h₂, _⟩ := all_ends hspec (s := (s₁.clear .umbrella).clear .scratch) trivial
    obtain ⟨s₃, h₃⟩ := @organize_ends (Generators.writing text).exec
      (s₂.clear .scratch)
    exact ⟨s₃, .seq (.seq (.seq (.edit rfl) (.seq (.seq (.run ⟨rfl, rfl⟩) h₁) (.edit rfl)))
      (.seq (.edit rfl) (.seq h₂ (.edit rfl)))) h₃⟩

end

def qtCdylib : GenerationInput where
  config := ⟨"demo_module", "cdylib", none, some "qt"⟩
  moduleDeps := []
  interfaceDeps := []
  staticDeps := [⟨"demo_dep", "demo_dep.lidl", none⟩]

theorem qtCdylib_evaluates : ∃ script, qtCdylib.generationScript = .ok script := ⟨_, rfl⟩

theorem generation_wraps_qtCdylib : ∃ s' : GenTree,
    (∀ u ∈ umbrellaFiles, Wrote .cppGenerator u (s' .include)) ∧
    ∀ e ∈ qtCdylib.consumerSpecs, ∀ n ∈ apiFiles e.name, ∃ f, s' (shipped n) n = some f ∧
      f.text ≠ "" ∧ (f.author = .qtGenerator ∨ none = some f) := by
  obtain ⟨script, hscript⟩ := qtCdylib_evaluates
  obtain ⟨s', hrun⟩ := generation_ends (by decide : "//" ≠ "") hscript fun _ _ => none
  exact ⟨s', generation_wraps hscript rfl hrun⟩

end LogosPluginQt
