import LogosPluginQt.GenerationSafety

namespace LogosPluginQt
open ShellScript GenerationInput
set_option autoImplicit true

section
variable {gens : Generators} {g : GenerationInput} {script : GenScript} {s s' : GenTree}
  {e : ConsumerSpec}

structure Authored (g : GenerationInput) (s : GenTree) : Prop where
  cpp : g.config.isQt = true → ∀ d, d = .generatedCode ∨ d = .include → ∀ n f,
    s d n = some f → f.author = .cppGenerator → n ∈ umbrellaFiles
  qt : ∀ d n f, s d n = some f → f.author = .qtGenerator →
    (d = .generatedCode ∨ d = .include) ∧ ∃ e ∈ g.consumerSpecs, n ∈ apiFiles e.name

theorem Authored.of_origin (h : Authored g s)
    (horigin : ∀ d n f, s' d n = some f → s d n = some f ∨
      (d = .include ∧ s .generatedCode n = some f)) : Authored g s' := by
  constructor
  · intro hqt d hd n f hf hauthor
    obtain hold | ⟨_, hgen⟩ := horigin d n f hf
    · exact h.cpp hqt d hd n f hold hauthor
    · exact h.cpp hqt .generatedCode (.inl rfl) n f hgen hauthor
  · intro d n f hf hauthor
    obtain hold | ⟨rfl, hgen⟩ := horigin d n f hf
    · exact h.qt d n f hold hauthor
    · exact ⟨.inr rfl, (h.qt .generatedCode n f hgen hauthor).2⟩

theorem Authored.clear (h : Authored g s) (d : GenDir) : Authored g (s.clear d) := by
  apply h.of_origin
  intro d' n f hf
  by_cases hd : d' = d
  · subst d'
    rw [Tree.clear_self] at hf
    cases hf
  · rw [Tree.clear_of_ne hd] at hf
    exact .inl hf

theorem Authored.cppCall {call : CppCall} {status : Nat} (h : Authored g s)
    (hd : g.config.isQt = true → call.outputDir = .umbrella)
    (he : gens.exec (.cpp call) s status s') : Authored g s' := by
  have hold {d : GenDir} {n : String} {f : BuiltFile} (hf : s' d n = some f) :
      s d n = some f ∨ (d = call.outputDir ∧ f.author = .cppGenerator) := by
    by_cases hdir : d = call.outputDir
    · subst d
      exact (gens.authored he n f hf).imp_right fun hauthor => ⟨rfl, hauthor⟩
    · rw [gens.frame he d hdir] at hf
      exact .inl hf
  constructor
  · intro hqt d hd' n f hf hauthor
    obtain hf | ⟨rfl, _⟩ := hold hf
    · exact h.cpp hqt d hd' n f hf hauthor
    · rw [hd hqt] at hd'
      exact absurd hd' (by decide)
  · intro d n f hf hauthor
    obtain hf | ⟨_, hcpp⟩ := hold hf
    · exact h.qt d n f hf hauthor
    · rw [hauthor] at hcpp
      cases hcpp

theorem Authored.qtCall {call : QtCall} {status : Nat} (h : Authored g s)
    (hd : call.outputDir = .generatedCode) (he : e ∈ g.consumerSpecs) (hname : call.module = e.name)
    (hexec : gens.exec (.qt call) s status s') : Authored g s' := by
  have hold {d : GenDir} {n : String} {f : BuiltFile} (hf : s' d n = some f) :
      s d n = some f ∨ (d = .generatedCode ∧ n ∈ apiFiles e.name ∧ f.author = .qtGenerator) := by
    by_cases hdir : d = call.outputDir
    · by_cases hn : n ∈ apiFiles call.module
      · subst d
        exact (gens.authored hexec n f hf).imp_right fun hauthor => ⟨hd, hname ▸ hn, hauthor⟩
      · subst d
        have hframe : s' call.outputDir n = s call.outputDir n := gens.consumer hexec n hn
        rw [hframe] at hf
        exact .inl hf
    · rw [gens.frame hexec d hdir] at hf
      exact .inl hf
  constructor
  · intro hqt d hd' n f hf hauthor
    obtain hf | ⟨_, _, hqtAuthor⟩ := hold hf
    · exact h.cpp hqt d hd' n f hf hauthor
    · rw [hauthor] at hqtAuthor
      cases hqtAuthor
  · intro d n f hf hauthor
    obtain hf | ⟨rfl, hn, _⟩ := hold hf
    · exact h.qt d n f hf hauthor
    · exact ⟨.inl rfl, e, he, hn⟩

theorem keeps_edit {f : GenTree → GenTree} {P : GenTree → Prop} (h : ∀ s, P s → P (f s)) :
    Keeps gens.exec P (.edit fun s => some (f s)) := triple_edit h

theorem takeUmbrella_provenance : Keeps gens.exec (Authored g) takeUmbrella := by
  apply Keeps.all
  intro script hscript
  obtain ⟨u, hu, rfl⟩ := List.mem_map.1 hscript
  apply Keeps.seq .require
  apply Keeps.edit
  intro s s' hs hcopy
  obtain ⟨f, hf, rfl⟩ := Option.map_eq_some_iff.1 hcopy
  have hold {d : GenDir} {n : String} {f' : BuiltFile}
      (hf' : Tree.put s .generatedCode u (some f) d n = some f') :
      s d n = some f' ∨ (n = u ∧ f' = f) := by
    by_cases hat : d = .generatedCode ∧ n = u
    · obtain ⟨rfl, rfl⟩ := hat
      rw [Tree.put_self] at hf'
      exact .inr ⟨rfl, (Option.some.inj hf').symm⟩
    · rw [Tree.put_of_ne (not_and_or.1 hat)] at hf'
      exact .inl hf'
  constructor
  · intro hqt d hd n f' hf' hauthor
    obtain hf' | ⟨rfl, _⟩ := hold hf'
    · exact hs.cpp hqt d hd n f' hf' hauthor
    · exact hu
  · intro d n f' hf' hauthor
    obtain hf' | ⟨_, rfl⟩ := hold hf'
    · exact hs.qt d n f' hf' hauthor
    · exact absurd (hs.qt .umbrella u f' hf hauthor).1 (by decide)

theorem specScript_provenance (he : e ∈ g.consumerSpecs) :
    Keeps gens.exec (Authored g) (specScript g e) := by
  unfold specScript
  cases e.contractInput with
  | error => exact .skip
  | ok input =>
    refine .seq ?_ (.seq (.run fun s status s' hs hexec => hs.qtCall rfl he rfl hexec) .require)
    unfold GenerationInput.synthMeta
    split
    · apply keeps_edit
      intro s hs
      have hold {d : GenDir} {n : String} {f : BuiltFile} {text : String}
          (hf : Tree.put s .scratch "meta.json" (some ⟨.script, text⟩) d n = some f) :
          s d n = some f ∨ (d = .scratch ∧ f.author = .script) := by
        by_cases hat : d = .scratch ∧ n = "meta.json"
        · obtain ⟨rfl, rfl⟩ := hat
          rw [Tree.put_self] at hf
          obtain rfl := Option.some.inj hf
          exact .inr ⟨rfl, rfl⟩
        · rw [Tree.put_of_ne (not_and_or.1 hat)] at hf
          exact .inl hf
      constructor
      · intro hqt d hd n f hf hauthor
        obtain hf | ⟨rfl, _⟩ := hold hf
        · exact hs.cpp hqt d hd n f hf hauthor
        · exact absurd hd (by decide)
      · intro d n f hf hauthor
        obtain hf | ⟨_, hscript⟩ := hold hf
        · exact hs.qt d n f hf hauthor
        · rw [hauthor] at hscript
          cases hscript
    · exact .skip

theorem copyAll_provenance (h : Authored g s) (sel : String → Bool) :
    Authored g (s.copyAll sel .generatedCode .include) := by
  apply h.of_origin
  intro d n f hf
  by_cases hd : d = .include
  · subst d
    exact (Tree.copyAll_origin hf).imp_right fun hgen => ⟨rfl, hgen⟩
  · rw [Tree.copyAll_of_ne hd] at hf
    exact .inl hf

theorem organize_provenance : Keeps gens.exec (Authored g) organize := by
  refine .ite (.seq (keeps_edit ?_) (keeps_edit fun s hs => copyAll_provenance hs _)) .skip
  intro s hs
  apply (copyAll_provenance hs (globMatch ".h")).of_origin
  intro d n f hf
  by_cases hd : d = .generatedCode
  · subst d
    rw [Tree.moveAll_source] at hf
    rw [Tree.copyAll_of_ne (by decide)]
    split at hf
    · cases hf
    · exact .inl hf
  · rw [Tree.moveAll_of_ne hd] at hf
    exact .inl hf

/-- Whatever the generators do and however the generation ends: in the Qt style nothing that
`logos-cpp-generator` wrote is in the generated code but the umbrella, and nothing that
`logos-qt-generator` wrote but the wrappers of this module's dependencies and interfaces. -/
theorem generation_provenance {gens : Generators} {g : GenerationInput} {script : GenScript}
    {s s' : GenTree} {o : Option Nat} (hscript : g.generationScript = .ok script)
    (hsource : ∀ d n f, s d n = some f → f.author = .module)
    (hrun : Exec gens.exec s script o s') : Authored g s' := by
  have h₀ : Authored g s := by
    constructor
    · intro _ d _ n f hf hauthor
      rw [hsource d n f hf] at hauthor
      cases hauthor
    · intro d n f hf hauthor
      rw [hsource d n f hf] at hauthor
      cases hauthor
  obtain ⟨_, _, hgen⟩ := generationScript_ok hscript
  have hclear (d : GenDir) : Keeps gens.exec (Authored g) (.edit fun s => some (s.clear d)) :=
    keeps_edit fun _ hs => hs.clear d
  have hkeeps : Keeps gens.exec (Authored g) script := by
    cases hgen with
    | lp hlp =>
      refine .seq (.run fun _ _ _ hs he => hs.cppCall (fun hqt => ?_) he) organize_provenance
      rw [hqt] at hlp
      cases hlp
    | qt _ _ =>
      refine .seq (.seq (.seq (hclear _) (.seq (.seq (.run fun _ _ _ hs he => ?_)
        takeUmbrella_provenance) (hclear _))) (.seq (hclear _) (.seq (.all ?_) (hclear _))))
        organize_provenance
      · exact hs.cppCall (fun _ => rfl) he
      · intro script hmem
        obtain ⟨e, he, rfl⟩ := List.mem_map.1 hmem
        exact specScript_provenance he
  exact hkeeps.exec h₀ hrun

/-- A run that ends well, with what both generators have written in it. -/
theorem generation_provenance_qtCdylib : ∃ script s',
    qtCdylib.generationScript = .ok script ∧
    Exec (Generators.writing "//").exec (fun _ _ => none) script none s' ∧
    (∀ u ∈ umbrellaFiles, Wrote .cppGenerator u (s' .include)) ∧
    (∀ n ∈ apiFiles "demo_dep", Wrote .qtGenerator n (s' (shipped n))) ∧
    Authored qtCdylib s' := by
  obtain ⟨script, hscript⟩ := qtCdylib_evaluates
  obtain ⟨s', hrun⟩ := generation_ends (by decide : "//" ≠ "") hscript fun _ _ => none
  refine ⟨script, s', hscript, hrun, umbrella_shipped hscript rfl hrun, fun n hn => ?_,
    generation_provenance hscript (by rintro d n f ⟨⟩) hrun⟩
  obtain ⟨f, hf, htext, hauthor⟩ :=
    wrappers_shipped hscript rfl hrun _ (List.mem_cons_self ..) n hn
  exact ⟨f, hf, htext, hauthor.resolve_right nofun⟩

/-! Which programs a script comes to. -/

theorem not_uses_synthMeta {call : GeneratorCall} : ¬ (synthMeta e).Uses call := by
  unfold GenerationInput.synthMeta
  split <;> exact id

theorem uses_specScript {call : GeneratorCall} (hu : (specScript g e).Uses call) :
    ∃ input, call = .qt ⟨input, e.name, e.bind, g.config.originBound, .generatedCode⟩ := by
  unfold specScript at hu
  cases hinput : e.contractInput with
  | error =>
    rw [hinput] at hu
    exact hu.elim
  | ok input =>
    rw [hinput] at hu
    obtain hmeta | hrun | hcheck := hu
    · exact absurd hmeta not_uses_synthMeta
    · exact ⟨input, hrun⟩
    · exact absurd hcheck Script.not_uses_require

theorem not_uses_takeUmbrella {call : GeneratorCall} : ¬ takeUmbrella.Uses call := by
  intro hu
  obtain ⟨script, hscript, hu⟩ := Script.uses_all.1 hu
  obtain ⟨u, _, rfl⟩ := List.mem_map.1 hscript
  obtain hcheck | hcopy := hu
  · exact absurd hcheck Script.not_uses_require
  · exact hcopy

theorem not_uses_organize {call : GeneratorCall} : ¬ organize.Uses call := by
  rintro ((h | h) | h) <;> exact h

theorem uses_inFresh {d : GenDir} {call : GeneratorCall} (hu : (inFresh d script).Uses call) :
    script.Uses call := by
  obtain h | h | h := hu
  · exact h.elim
  · exact h
  · exact h.elim

/-- All generators of one script are asked for the same surface and the same binding: the style of
the module, and an origin binding exactly where the module is Qt-styled and gets its tokens
over the C ABI. In particular a Qt plugin never gets wrappers without a `LogosAPI`. -/
theorem generation_calls {g : GenerationInput} {script : GenScript} {call : GeneratorCall}
    (hscript : g.generationScript = .ok script) (hu : script.Uses call) :
    call.apiStyle = g.config.apiStyle ∧ call.originBinding = g.config.originBound ∧
      (g.config.packagedAsCdylib = false → call.apiStyle ≠ "lp" ∧ call.originBinding = false) := by
  obtain ⟨hstyle, _, hgen⟩ := generationScript_ok hscript
  have hagree : call.apiStyle = g.config.apiStyle ∧ call.originBinding = g.config.originBound := by
    cases hgen with
    | lp hlp =>
      obtain hrun | horganize := hu
      · obtain rfl := hrun
        refine ⟨rfl, ?_⟩
        rw [ModuleConfig.originBound, hlp]
        rfl
      · exact absurd horganize not_uses_organize
    | qt hqt _ =>
      have hqt' : "qt" = g.config.apiStyle := (beq_iff_eq.1 hqt).symm
      obtain (humbrella | hconsumers) | horganize := hu
      · obtain hrun | htake := uses_inFresh humbrella
        · obtain rfl := hrun
          exact ⟨hqt', rfl⟩
        · exact absurd htake not_uses_takeUmbrella
      · obtain ⟨script, hmem, hu⟩ := Script.uses_all.1 (uses_inFresh hconsumers)
        obtain ⟨e, _, rfl⟩ := List.mem_map.1 hmem
        obtain ⟨input, rfl⟩ := uses_specScript hu
        exact ⟨hqt', rfl⟩
      · exact absurd horganize not_uses_organize
  refine ⟨hagree.1, hagree.2, fun hplugin => ⟨?_, ?_⟩⟩
  · intro hlp
    have hcdylib := assertConsumerApiStyle_ok hstyle (hagree.1.symm.trans hlp)
    rw [hplugin] at hcdylib
    cases hcdylib
  · rw [hagree.2, ModuleConfig.originBound, hplugin, Bool.and_false]

theorem generation_calls_qtCdylib : ∃ call : GeneratorCall, call.apiStyle = "qt" ∧
    call.originBinding = true ∧
    (qtCdylib.config.packagedAsCdylib = false → call.apiStyle ≠ "lp" ∧
      call.originBinding = false) := by
  obtain ⟨script, hscript⟩ := qtCdylib_evaluates
  have hu : script.Uses (.cpp qtCdylib.umbrellaCall) := by
    cases (generationScript_ok hscript).2.2 with
    | lp hlp => cases hlp
    | qt => exact .inl (.inl (.inr (.inl (.inl rfl))))
  exact ⟨.cpp qtCdylib.umbrellaCall, generation_calls hscript hu⟩

/-! Where the expression throws. -/

def ContractDep.Readable (e : ContractDep) : Prop :=
  hasSuffix ".lidl" e.path = true ∨ (e.isHeader = true ∧ e.implClass.isSome = true)

theorem contractInput_readable {e : ContractDep} (h : e.Readable) :
    ∃ input, e.contractInput = .ok input := by
  unfold ContractDep.contractInput
  obtain hlidl | ⟨hheader, himpl⟩ := h
  · exact ⟨_, if_pos hlidl⟩
  · obtain ⟨implClass, himpl⟩ := Option.isSome_iff_exists.1 himpl
    rw [hheader, himpl]
    split <;> exact ⟨_, rfl⟩

theorem contractInput_unreadable {e : ContractDep} (h : ¬ e.Readable) :
    e.contractInput = .error (.contract e.name e.path) := by
  obtain ⟨hlidl, hheader⟩ := not_or.1 h
  unfold ContractDep.contractInput
  rw [if_neg hlidl]
  split
  next hh hi => exact absurd ⟨hh, Option.isSome_iff_exists.2 ⟨_, hi⟩⟩ hheader
  next => rfl

theorem consumers_error {specs : List ConsumerSpec} {error : EvalError} :
    specs.mapM g.qtConsumerCall = .error error ↔
      ∃ before e after, specs = before ++ e :: after ∧ (∀ e' ∈ before, e'.Readable) ∧
        ¬ e.Readable ∧ error = .contract e.name e.path := by
  induction specs with
  | nil =>
    refine iff_of_false nofun ?_
    rintro ⟨before, _, _, h, _⟩
    exact absurd h.symm (List.append_ne_nil_of_right_ne_nil before (List.cons_ne_nil _ _))
  | cons e specs ih =>
    rw [List.mapM_cons]
    by_cases he : e.Readable
    · obtain ⟨input, hinput⟩ := contractInput_readable he
      have hcall : g.qtConsumerCall e = .ok (g.consumerScript e input) := by
        rw [GenerationInput.qtConsumerCall, hinput]
        rfl
      rw [hcall]
      have hrest : ((do
          let rest ← specs.mapM g.qtConsumerCall
          pure (g.consumerScript e input :: rest)) = .error error) ↔
          specs.mapM g.qtConsumerCall = .error error := by
        cases specs.mapM g.qtConsumerCall with
        | error error' => exact Iff.rfl
        | ok => exact iff_of_false nofun nofun
      refine hrest.trans (ih.trans ?_)
      constructor
      · rintro ⟨before, e', after, rfl, hbefore, h⟩
        exact ⟨e :: before, e', after, rfl, List.forall_mem_cons.2 ⟨he, hbefore⟩, h⟩
      · rintro ⟨before, e', after, hsplit, hbefore, hnot, herror⟩
        cases before with
        | nil =>
          obtain ⟨rfl, _⟩ := List.cons.inj hsplit
          exact absurd he hnot
        | cons e'' before =>
          obtain ⟨rfl, rfl⟩ := List.cons.inj hsplit
          exact ⟨before, e', after, rfl, fun e₁ h₁ => hbefore e₁ (List.mem_cons_of_mem _ h₁),
            hnot, herror⟩
    · have hcall : g.qtConsumerCall e = .error (.contract e.name e.path) := by
        rw [GenerationInput.qtConsumerCall, contractInput_unreadable he]
        rfl
      rw [hcall]
      constructor
      · rintro ⟨⟩
        exact ⟨[], e, specs, rfl, nofun, he, rfl⟩
      · rintro ⟨before, e', after, hsplit, hbefore, _, rfl⟩
        cases before with
        | nil =>
          obtain ⟨rfl, _⟩ := List.cons.inj hsplit
          rfl
        | cons e'' before =>
          obtain ⟨rfl, _⟩ := List.cons.inj hsplit
          exact absurd (hbefore e (List.mem_cons_self ..)) he

/-- What the expression throws, and in which order it looks: the lp surface asked for in a Qt
plugin, then the dependencies without a contract, then, in the Qt style only, the first
specification whose contract the consumer backend cannot read. -/
theorem generation_refused_iff (g : GenerationInput) (error : EvalError) :
    g.generationScript = .error error ↔
      (g.config.apiStyle = "lp" ∧ g.config.packagedAsCdylib = false ∧ error =
        .consumerApiStyle g.config.name g.config.interface (g.config.type.getD "core")) ∨
      (¬ (g.config.apiStyle = "lp" ∧ g.config.packagedAsCdylib = false) ∧
        g.legacyHeaderDepNames ≠ [] ∧
        error = .legacyHeaderDeps g.config.name g.legacyHeaderDepNames) ∨
      (g.legacyHeaderDepNames = [] ∧ g.config.apiStyle = "qt" ∧
        ∃ before e after, g.consumerSpecs = before ++ e :: after ∧
          (∀ e' ∈ before, e'.Readable) ∧ ¬ e.Readable ∧ error = .contract e.name e.path) := by
  unfold GenerationInput.generationScript ModuleConfig.assertConsumerApiStyle
    GenerationInput.assertNoLegacyHeaderDeps GenerationInput.generatorCalls
  by_cases hgate : g.config.apiStyle = "lp" ∧ g.config.packagedAsCdylib = false
  · obtain ⟨hlp, hplugin⟩ := hgate
    have hnotqt : g.config.apiStyle ≠ "qt" := by
      rw [hlp]
      decide
    simp only [hlp, hplugin, true_and, not_true_eq_false, false_and, false_or, bne_self_eq_false,
      Bool.or_self, Bool.false_eq_true, ↓reduceIte]
    constructor
    · rintro ⟨⟩
      exact .inl rfl
    · rintro (rfl | ⟨_, hqt, _⟩)
      · rfl
      · exact absurd hqt (by decide)
  · have hpass : (g.config.apiStyle != "lp" || g.config.packagedAsCdylib) = true := by
      rw [Bool.or_eq_true, bne_iff_ne]
      by_contra hnot
      obtain ⟨hlp, hplugin⟩ := not_or.1 hnot
      exact hgate ⟨not_not.1 hlp, eq_false_of_ne_true hplugin⟩
    rw [if_pos hpass]
    cases hlegacy : g.legacyHeaderDepNames with
    | cons name names =>
      simp only [hgate, List.isEmpty_cons]
      constructor
      · rintro ⟨⟩
        exact .inr (.inl ⟨id, List.cons_ne_nil _ _, rfl⟩)
      · rintro (⟨hlp, hplugin, _⟩ | ⟨_, _, rfl⟩ | ⟨hnil, _⟩)
        · exact absurd ⟨hlp, hplugin⟩ hgate
        · rfl
        · cases hnil
    | nil =>
      cases hqt : g.config.isQt with
      | false =>
        have hnot : g.config.apiStyle ≠ "qt" := fun he => by
          rw [ModuleConfig.isQt, he] at hqt
          cases hqt
        refine iff_of_false nofun ?_
        rintro (⟨hlp, hplugin, _⟩ | ⟨_, hne, _⟩ | ⟨_, he, _⟩)
        · exact hgate ⟨hlp, hplugin⟩
        · exact hne rfl
        · exact hnot he
      | true =>
        have he : g.config.apiStyle = "qt" := beq_iff_eq.1 hqt
        rw [← consumers_error (g := g)]
        cases hcalls : g.consumerSpecs.mapM g.qtConsumerCall with
        | error error' =>
          constructor
          · rintro ⟨⟩
            exact .inr (.inr ⟨rfl, he, rfl⟩)
          · rintro (⟨hlp, hplugin, _⟩ | ⟨_, hne, _⟩ | ⟨_, _, h⟩)
            · exact absurd ⟨hlp, hplugin⟩ hgate
            · exact absurd rfl hne
            · cases h
              rfl
        | ok scripts =>
          refine iff_of_false nofun ?_
          rintro (⟨hlp, hplugin, _⟩ | ⟨_, hne, _⟩ | ⟨_, _, h⟩)
          · exact hgate ⟨hlp, hplugin⟩
          · exact hne rfl
          · cases h

end

end LogosPluginQt
