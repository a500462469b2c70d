import LogosPluginQt.PluginBuild

namespace LogosPluginQt
open Directories
set_option autoImplicit true

section
variable {d shelf shelf' : BuildDir F} {n : String} {glob : String → Bool}

theorem expand_nodup (d : BuildDir F) (glob : String → Bool) : (d.expand glob).Nodup :=
  (List.perm_insertionSort _ _).nodup_iff.2 (d.keys_nodup.filter _)

theorem mem_expand : n ∈ d.expand glob ↔ n ∈ d ∧ globMatch "" n = true ∧ glob n = true := by
  rw [BuildDir.expand, List.mem_insertionSort, List.mem_filter, Bool.and_eq_true]
  rfl

theorem runtimeNames_nodup (name : String) : (runtimeNames name).Nodup := by
  have hne : "lib" ++ name ++ ".dll" ≠ name ++ ".dll" := by
    intro h
    have hlength := congrArg String.length h
    simp only [String.length_append] at hlength
    have hlib : "lib".length = 3 := rfl
    omega
  exact List.nodup_cons.2 ⟨fun h => hne (List.mem_singleton.1 h), List.nodup_singleton _⟩

/-! What a library comes to on the shelf. -/

structure Layered (offered : F → Prop) (old new : Option (Entry F)) : Prop where
  origin : ∀ e ∈ new, ∀ c, e.content = some c →
    offered c ∨ (old = some e ∧ e.Writable ∧ ∀ c, ¬ offered c)
  kept : (old.isSome = true ∨ ∃ c, offered c) → new.isSome = true

theorem Layered.start {old : Option (Entry F)} (h : ∀ e ∈ old, e.Writable) :
    Layered (fun _ => False) old old where
  origin e he _ _ := .inr ⟨he, h e he, fun _ => id⟩
  kept := fun | .inl h => h | .inr ⟨_, h⟩ => h.elim

/-- One more copy: what was there is left only where it cannot be replaced. -/
theorem Layered.copy {offered : F → Prop} {old mid : Option (Entry F)}
    (h : Layered offered old mid) (source : Option (Entry F)) (force : Bool) :
    Layered (fun c => offered c ∨ ∃ e ∈ source, e.content = some c) old
      ((source.bind fun e => e.cp force mid).or mid) where
  origin e he c hc := by
    cases source with
    | none =>
      obtain hoffered | ⟨hold, hw, hnone⟩ := h.origin e he c hc
      · exact .inl (.inl hoffered)
      · refine .inr ⟨hold, hw, fun c' hc' => ?_⟩
        obtain hc' | ⟨_, he', _⟩ := hc'
        · exact hnone c' hc'
        · cases he'
    | some s =>
      rw [Option.bind_some] at he
      cases hcp : s.cp force mid with
      | some e' =>
        rw [hcp] at he
        obtain rfl := Option.some.inj he
        exact .inl (.inr ⟨s, rfl, (Entry.cp_content hcp).symm.trans hc⟩)
      | none =>
        rw [hcp] at he
        obtain hoffered | ⟨hold, hw, hnone⟩ := h.origin e he c hc
        · exact .inl (.inl hoffered)
        · refine .inr ⟨hold, hw, fun c' hc' => ?_⟩
          obtain hc' | ⟨s', hs', hc'⟩ := hc'
          · exact hnone c' hc'
          · obtain rfl := Option.some.inj hs'
            obtain ⟨mode, rfl⟩ := Entry.content_eq_some.1 hc'
            obtain ⟨writable, rfl⟩ := Entry.content_eq_some.1 hc
            have hsome : ((Entry.file mode c').cp force mid).isSome = true := by
              apply Entry.cp_isSome
              intro e₁ he₁
              obtain rfl := Option.some.inj ((Option.mem_def.1 he₁).symm.trans he)
              exact ⟨rfl, hw⟩
            rw [hcp] at hsome
            cases hsome
  kept hsome := by
    cases source with
    | none =>
      apply h.kept
      obtain hold | ⟨c, hc | ⟨_, he, _⟩⟩ := hsome
      · exact .inl hold
      · exact .inr ⟨c, hc⟩
      · cases he
    | some s =>
      cases hmid : mid with
      | none =>
        rw [Option.bind_some, Entry.cp_none]
        rfl
      | some e =>
        rw [Option.or_some]
        rfl

theorem Layered.congr {offered offered' : F → Prop} {old new : Option (Entry F)}
    (h : Layered offered old new) (hiff : ∀ c, offered c ↔ offered' c) :
    Layered offered' old new := by
  obtain rfl : offered = offered' := funext fun c => propext (hiff c)
  exact h

theorem Layered.attempt {offered : F → Prop} {old : Option (Entry F)}
    (h : Layered offered old (shelf.lookup n)) {names : List String} (hnodup : names.Nodup)
    (force : Bool) (source : String → Option (Entry F)) :
    Layered (fun c => offered c ∨ (n ∈ names ∧ ∃ e ∈ source n, e.content = some c)) old
      ((shelf.attempt names fun n old => (source n).bind fun e => e.cp force old).lookup n) := by
  rw [Dir.lookup_attempt hnodup]
  by_cases hn : n ∈ names
  · rw [if_pos hn]
    exact (h.copy (source n) force).congr fun c => by rw [and_iff_right hn]
  · rw [if_neg hn]
    exact h.congr fun c => (or_iff_left fun hc => hn hc.1).symm

theorem Layered.chmod {offered : F → Prop} {old new : Option (Entry F)}
    (h : Layered offered old new) : Layered offered old (new.map Entry.chmod) where
  origin e he c hc := by
    obtain ⟨e', he', rfl⟩ := Option.map_eq_some_iff.1 he
    obtain hoffered | ⟨rfl, hw, hnone⟩ := h.origin e' he' c (e'.chmod_content ▸ hc)
    · exact .inl hoffered
    · refine .inr ⟨?_, e'.chmod_writable, hnone⟩
      cases e' with
      | dir => cases hc
      | file writable content =>
        obtain rfl : writable = true := hw
        rfl
  kept hsome := by
    rw [Option.isSome_map]
    exact h.kept hsome

theorem content_eq_some {c : F} :
    d.content n = some c ↔ ∃ e ∈ d.lookup n, e.content = some c := Option.bind_eq_some_iff

end

def OffersAll (d : Option (BuildDir F)) (n : String) (c : F) : Prop :=
  ∃ d' ∈ d, n ∈ d'.expand (fun _ => true) ∧ d'.content n = some c

/-- The contents a library has for a name, in its `lib`, its `include` or, for its own runtime
half, its `bin`. -/
def LibInfo.Offers (name : String) (info : LibInfo F) (n : String) (c : F) : Prop :=
  match info with
  | .file base e => n = base ∧ e.content = some c
  | .tree lib bin includeDir => OffersAll lib n c ∨
    (n ∈ runtimeNames name ∧ ∃ d ∈ bin, d.content n = some c) ∨ OffersAll includeDir n c

section
variable (externalLibs : String → Option (LibInfo F)) (source : String → BuildDir F)

def ExternalLibrary.Offers (extLib : ExternalLibrary) (n : String) (c : F) : Prop :=
  match externalLibs extLib.name, extLib.vendorPath with
  | some libInfo, _ => libInfo.Offers extLib.name n c
  | none, some path => n ∈ (source path).expand (fun n => "lib".toList.isPrefixOf n.toList) ∧
    (source path).content n = some c
  | none, none => False

end

section
variable {shelf : BuildDir F} {n : String} {offered : F → Prop} {old : Option (Entry F)}

theorem isFile_of_content {d : BuildDir F} {c : F} (h : d.content n = some c) :
    d.isFile n = true := by
  obtain ⟨e, he, hc⟩ := content_eq_some.1 h
  obtain ⟨writable, rfl⟩ := Entry.content_eq_some.1 hc
  rw [BuildDir.isFile, he]
  rfl

theorem Layered.takeAll (h : Layered offered old (shelf.lookup n)) (d : Option (BuildDir F)) :
    Layered (fun c => offered c ∨ OffersAll d n c) old ((takeAll d shelf).lookup n) := by
  cases d with
  | none => exact h.congr fun c => (or_iff_left fun ⟨_, hd, _⟩ => absurd hd nofun).symm
  | some d =>
    have hoffers (c : F) : OffersAll (some d) n c ↔
        n ∈ d.expand (fun _ => true) ∧ ∃ e ∈ d.lookup n, e.content = some c := by
      rw [← content_eq_some]
      exact ⟨fun ⟨_, hd, hc⟩ => Option.some.inj hd ▸ hc, fun hc => ⟨d, rfl, hc⟩⟩
    exact (h.attempt (expand_nodup d _) false fun n => d.lookup n).congr fun c => by rw [hoffers]

theorem Layered.takeRuntime (h : Layered offered old (shelf.lookup n)) (name : String)
    (bin : Option (BuildDir F)) :
    Layered (fun c => offered c ∨ (n ∈ runtimeNames name ∧ ∃ d ∈ bin, d.content n = some c)) old
      ((takeRuntime name bin shelf).lookup n) := by
  cases bin with
  | none => exact h.congr fun c => (or_iff_left fun ⟨_, _, hd, _⟩ => absurd hd nofun).symm
  | some d =>
    have hoffers (c : F) : (n ∈ runtimeNames name ∧ ∃ d' ∈ some d, d'.content n = some c) ↔
        n ∈ (runtimeNames name).filter d.isFile ∧ ∃ e ∈ d.lookup n, e.content = some c := by
      rw [← content_eq_some, List.mem_filter]
      constructor
      · rintro ⟨hn, _, hd, hc⟩
        obtain rfl := Option.some.inj hd
        exact ⟨⟨hn, isFile_of_content hc⟩, hc⟩
      · rintro ⟨⟨hn, _⟩, hc⟩
        exact ⟨hn, d, rfl, hc⟩
    have hnodup := (runtimeNames_nodup name).filter d.isFile
    exact (h.attempt hnodup true fun n => d.lookup n).congr fun c => by rw [hoffers]

theorem LibInfo.stage_layered (name : String) (info : LibInfo F)
    (hold : ∀ e ∈ shelf.lookup n, e.Writable) :
    Layered (info.Offers name n) (shelf.lookup n) ((info.stage name shelf).lookup n) := by
  have hstart := Layered.start hold
  cases info with
  | file base e =>
    have hbase := hstart.attempt (List.nodup_singleton base) false fun _ => some e
    refine hbase.congr fun c => ?_
    rw [false_or, List.mem_singleton, LibInfo.Offers]
    exact and_congr_right fun _ => ⟨fun ⟨_, he, hc⟩ => Option.some.inj he ▸ hc,
      fun hc => ⟨e, rfl, hc⟩⟩
  | tree lib bin includeDir =>
    have htaken := ((hstart.takeAll lib).takeRuntime name bin).takeAll includeDir
    exact htaken.congr fun c => by rw [false_or, or_assoc, LibInfo.Offers]

theorem takeVendored_layered (d : BuildDir F) (hold : ∀ e ∈ shelf.lookup n, e.Writable) :
    Layered (fun c => n ∈ d.expand (fun n => "lib".toList.isPrefixOf n.toList) ∧
      d.content n = some c) (shelf.lookup n) ((takeVendored d shelf).lookup n) := by
  have hnodup := (expand_nodup d fun n => "lib".toList.isPrefixOf n.toList).filter d.isFile
  have htaken := (Layered.start hold).attempt hnodup false fun n => d.lookup n
  refine htaken.congr fun c => ?_
  rw [false_or, List.mem_filter, ← content_eq_some]
  exact ⟨fun ⟨⟨hn, _⟩, hc⟩ => ⟨hn, hc⟩, fun ⟨hn, hc⟩ => ⟨⟨hn, isFile_of_content hc⟩, hc⟩⟩

end

section
variable {externalLibs : String → Option (LibInfo F)} {source : String → BuildDir F}
  {shelf : BuildDir F} {n : String}

theorem ExternalLibrary.stage_layered (extLib : ExternalLibrary)
    (hold : ∀ e ∈ shelf.lookup n, e.Writable) :
    Layered (extLib.Offers externalLibs source n) (shelf.lookup n)
      ((extLib.stage externalLibs source shelf).lookup n) := by
  cases hlib : externalLibs extLib.name with
  | some libInfo =>
    rw [ExternalLibrary.stage, hlib, Dir.lookup_chmod]
    exact (LibInfo.stage_layered _ _ hold).chmod.congr fun c => by
      rw [ExternalLibrary.Offers, hlib]
  | none =>
    cases hpath : extLib.vendorPath with
    | some path =>
      rw [ExternalLibrary.stage, hlib, hpath, Dir.lookup_chmod]
      exact (takeVendored_layered _ hold).chmod.congr fun c => by
        rw [ExternalLibrary.Offers, hlib, hpath]
    | none =>
      rw [ExternalLibrary.stage, hlib, hpath]
      exact (Layered.start hold).congr fun c => by rw [ExternalLibrary.Offers, hlib, hpath]

/-- Whatever a library leaves can be written, so that the next can be staged over it. -/
theorem ExternalLibrary.stage_writable (extLib : ExternalLibrary)
    (hold : ∀ e ∈ shelf.lookup n, e.Writable) :
    ∀ e ∈ (extLib.stage externalLibs source shelf).lookup n, e.Writable := by
  have hchmod (d : BuildDir F) : ∀ e ∈ d.chmod.lookup n, e.Writable := by
    intro e he
    rw [Dir.lookup_chmod] at he
    obtain ⟨e', _, rfl⟩ := Option.map_eq_some_iff.1 he
    exact e'.chmod_writable
  unfold ExternalLibrary.stage
  split
  · exact hchmod _
  · exact hchmod _
  · exact hold

/-- The content comes from the last library that has any for the name, or was there before. -/
def FromLast (externalLibs : String → Option (LibInfo F)) (source : String → BuildDir F)
    (libraries : List ExternalLibrary) (n : String) (c : F) (before : Option (Entry F)) : Prop :=
  (∃ earlier extLib later, libraries = earlier ++ extLib :: later ∧
    extLib.Offers externalLibs source n c ∧
    ∀ l ∈ later, ∀ c', ¬ l.Offers externalLibs source n c') ∨
  ((∃ e ∈ before, e.content = some c) ∧
    ∀ l ∈ libraries, ∀ c', ¬ l.Offers externalLibs source n c')

/-- Where the source's own `lib` can be written and no library brings links, staging keeps every
name, leaves all of them to be written over, and of the libraries with a file of one name it is
the last one's that is built against. -/
theorem external_libs_staged (libraries : List ExternalLibrary)
    (hshelf : ∀ n, ∀ e ∈ shelf.lookup n, e.Writable) (n : String) :
    (∀ e ∈ (externalLibCopies externalLibs source libraries shelf).lookup n,
      e.Writable ∧ ∀ c, e.content = some c →
        FromLast externalLibs source libraries n c (shelf.lookup n)) ∧
    ((n ∈ shelf ∨ ∃ l ∈ libraries, ∃ c, l.Offers externalLibs source n c) →
      n ∈ externalLibCopies externalLibs source libraries shelf) := by
  induction libraries generalizing shelf with
  | nil =>
    refine ⟨fun e he => ⟨hshelf n e he, fun c hc => .inr ⟨⟨e, he, hc⟩, nofun⟩⟩, ?_⟩
    rintro (hn | ⟨_, hl, _⟩)
    · exact hn
    · cases hl
  | cons l libraries ih =>
    have hlayered : Layered (l.Offers externalLibs source n) (shelf.lookup n)
        ((l.stage externalLibs source shelf).lookup n) := l.stage_layered (hshelf n)
    have hwritable (n : String) :
        ∀ e ∈ (l.stage externalLibs source shelf).lookup n, e.Writable :=
      l.stage_writable (hshelf n)
    obtain ⟨hfrom, hkept⟩ := ih hwritable
    constructor
    · intro e he
      obtain ⟨hw, hlast⟩ := hfrom e he
      refine ⟨hw, fun c hc => ?_⟩
      obtain ⟨earlier, l', later, rfl, hoffers, hlater⟩ | ⟨⟨e', he', hc'⟩, hnone⟩ := hlast c hc
      · exact .inl ⟨l :: earlier, l', later, rfl, hoffers, hlater⟩
      · obtain hoffers | ⟨hold, _, hnone'⟩ := hlayered.origin e' he' c hc'
        · exact .inl ⟨[], l, libraries, rfl, hoffers, hnone⟩
        · exact .inr ⟨⟨e', hold, hc'⟩, List.forall_mem_cons.2 ⟨hnone', hnone⟩⟩
    · intro hsome
      apply hkept
      have hstaged (h : (shelf.lookup n).isSome = true ∨ ∃ c, l.Offers externalLibs source n c) :
          n ∈ l.stage externalLibs source shelf := AList.lookup_isSome.1 (hlayered.kept h)
      obtain hn | ⟨l', hl', hc⟩ := hsome
      · exact .inl (hstaged (.inl (AList.lookup_isSome.2 hn)))
      · obtain rfl | hl' := List.mem_cons.1 hl'
        · exact .inl (hstaged (.inr hc))
        · exact .inr ⟨l', hl', hc⟩

end

def calcLibs (name : String) : Option (LibInfo String) :=
  if name = "calc" || name = "calc_c" then
    some (.tree (some ((∅ : BuildDir String).insert "libcalc.so" (.file false name))) none none)
  else none

def ownLib : BuildDir String := (∅ : BuildDir String).insert "libcalc.so" (.file true "own")

/-- The library is there in place of the source's own file, for all that each copy of it came
read-only. -/
theorem external_libs_staged_calc :
    let staged := externalLibCopies calcLibs (fun _ => ∅) [⟨"calc_c", none⟩, ⟨"calc", none⟩] ownLib
    "libcalc.so" ∈ staged ∧
      ∀ e ∈ staged.lookup "libcalc.so", e.Writable ∧ e.content ≠ some "own" := by
  have hown (n : String) : ∀ e ∈ ownLib.lookup n, e.Writable := by
    intro e he
    by_cases hn : n = "libcalc.so"
    · subst n
      rw [ownLib, AList.lookup_insert] at he
      cases he
      rfl
    · rw [ownLib, AList.lookup_insert_ne hn, AList.lookup_empty] at he
      cases he
  have hoffers : (⟨"calc", none⟩ : ExternalLibrary).Offers calcLibs (fun _ => ∅) "libcalc.so"
      "calc" := by
    refine .inl ⟨_, rfl, ?_, rfl⟩
    decide +kernel
  obtain ⟨hfrom, hkept⟩ :=
    @external_libs_staged _ calcLibs (fun _ => ∅) _ [⟨"calc_c", none⟩, ⟨"calc", none⟩] hown
      "libcalc.so"
  refine ⟨hkept (.inr ⟨⟨"calc", none⟩, by simp, "calc", hoffers⟩),
    fun e he => ⟨(hfrom e he).1, fun hc => ?_⟩⟩
  obtain ⟨earlier, l, later, hlibs, hl, _⟩ | ⟨_, hnone⟩ := (hfrom e he).2 "own" hc
  · have hmem : l = ⟨"calc_c", none⟩ ∨ l = ⟨"calc", none⟩ := by
      have hl' : l ∈ [(⟨"calc_c", none⟩ : ExternalLibrary), ⟨"calc", none⟩] := by
        rw [hlibs]
        simp
      simpa using hl'
    obtain rfl | rfl := hmem
    · obtain ⟨_, ⟨⟩, _, hcontent⟩ | ⟨_, _, ⟨⟩, _⟩ | ⟨_, ⟨⟩, _⟩ := hl
      exact absurd hcontent (by decide +kernel)
    · obtain ⟨_, ⟨⟩, _, hcontent⟩ | ⟨_, _, ⟨⟩, _⟩ | ⟨_, ⟨⟩, _⟩ := hl
      exact absurd hcontent (by decide +kernel)
  · exact hnone ⟨"calc", none⟩ (by simp) "calc" hoffers

end LogosPluginQt
