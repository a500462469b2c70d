import LogosPluginQt.LibraryStaging
import Mathlib.Data.List.Infix

namespace LogosPluginQt
open Directories
set_option autoImplicit true

section
variable {i : PluginInput} {t : BuildTree F} {d lib lib' : BuildDir F} {n : String}
  {found : String × Entry F}

theorem isFile_iff : d.isFile n = true ↔ ∃ e ∈ d.lookup n, e.isFile = true := by
  rw [BuildDir.isFile, Option.any_eq_true]
  rfl

theorem mem_of_isFile (h : d.isFile n = true) : n ∈ d := by
  obtain ⟨e, he, _⟩ := isFile_iff.1 h
  exact AList.lookup_isSome.1 (Option.isSome_iff_exists.2 ⟨e, he⟩)

theorem find_file {base : String} (h : t.find base = some found) :
    found.2.isFile = true ∧ ∃ ext ∈ ["dylib", "so", "dll"], found.1 = base ++ "." ++ ext := by
  obtain ⟨d, _, hd⟩ := List.exists_of_findSome?_eq_some h
  obtain ⟨ext, hmem, hext⟩ := List.exists_of_findSome?_eq_some hd
  obtain ⟨e, he, rfl⟩ := Option.map_eq_some_iff.1 hext
  exact ⟨(Option.filter_eq_some_iff.1 he).2, ext, hmem, rfl⟩

theorem plugin_ne (i : PluginInput) (ext ext' : String) :
    i.plugin ++ ext ≠ i.replicaFactory ++ ext' := by
  intro he
  rw [PluginInput.plugin, PluginInput.replicaFactory] at he
  have hlist := congrArg String.toList he
  simp only [String.toList_append, List.append_assoc, List.append_cancel_left_eq] at hlist
  exact absurd (congrArg (·[1]?) hlist) (by simp)

theorem found_ne {other : String × Entry F} (h : t.find i.plugin = some found)
    (hother : t.find i.replicaFactory = some other) : found.1 ≠ other.1 := by
  obtain ⟨_, ext, _, hext⟩ := find_file h
  obtain ⟨_, ext', _, hext'⟩ := find_file hother
  rw [hext, hext', String.append_assoc, String.append_assoc]
  exact plugin_ne i _ _

def foundAs (n : String) (found : Option (String × Entry F)) : Option (Entry F) :=
  found.bind fun found => if found.1 = n then some found.2 else none

def PluginInput.built (i : PluginInput) (t : BuildTree F) (n : String) : Option (Entry F) :=
  (foundAs n (t.find i.replicaFactory)).or (foundAs n (t.find i.plugin))

theorem isFile_eq_content : d.isFile n = (d.content n).isSome := by
  rw [BuildDir.isFile, BuildDir.content]
  cases d.lookup n with
  | none => rfl
  | some e => cases e <;> rfl

/-- What goes to `$out/lib` under a name: the source's own library comes before a staged one, and
any library before what has been built. -/
def PluginInput.shipped (i : PluginInput) (t : BuildTree F) (n : String) : Option F :=
  if n ∈ i.libraries t.srcLib then t.srcLib.content n
  else if n ∈ i.libraries t.staged then t.staged.content n
  else (i.built t n).bind Entry.content

theorem mem_libraries : n ∈ i.libraries d ↔
    globMatch "" n = true ∧ hasSuffix ("." ++ i.libExt) n = true ∧ d.isFile n = true := by
  rw [PluginInput.libraries, List.mem_filter, mem_expand]
  constructor
  · rintro ⟨⟨_, hglob, hext⟩, hfile⟩
    exact ⟨hglob, hext, hfile⟩
  · rintro ⟨hglob, hext, hfile⟩
    exact ⟨⟨mem_of_isFile hfile, hglob, hext⟩, hfile⟩

theorem libraries_nodup (i : PluginInput) (d : BuildDir F) : (i.libraries d).Nodup :=
  (expand_nodup d _).filter _

theorem each_fresh {e : Entry F} (hn : lib.lookup n = none) :
    lib.each [n] (fun _ old => e.cp false old) = some (lib.insert n e) := by
  rw [Dir.each, List.foldlM_cons, hn, Entry.cp_none]
  rfl

theorem built_placed (h : t.find i.plugin = some found) :
    ∃ lib, (i.installPlugin t ∅).bind (i.installReplicaFactory t) = some lib ∧
      ∀ n, lib.lookup n = i.built t n := by
  have hplugin : i.installPlugin t ∅ = some ((∅ : BuildDir F).insert found.1 found.2) := by
    rw [PluginInput.installPlugin, h, Option.bind_some, each_fresh (AList.lookup_empty _)]
  have hlookup (n : String) : ((∅ : BuildDir F).insert found.1 found.2).lookup n =
      foundAs n (some found) := by
    rw [foundAs, Option.bind_some]
    split
    next hn => rw [← hn, AList.lookup_insert]
    next hn => rw [AList.lookup_insert_ne (Ne.symm hn), AList.lookup_empty]
  rw [hplugin, Option.bind_some, PluginInput.installReplicaFactory]
  cases hfactory : t.find i.replicaFactory with
  | none =>
    refine ⟨_, rfl, fun n => ?_⟩
    rw [hlookup, PluginInput.built, hfactory, h]
    rfl
  | some other =>
    have hfresh : ((∅ : BuildDir F).insert found.1 found.2).lookup other.1 = none := by
      rw [hlookup, foundAs, Option.bind_some, if_neg (found_ne h hfactory)]
    refine ⟨_, each_fresh hfresh, fun n => ?_⟩
    rw [PluginInput.built, hfactory, h]
    by_cases hn : other.1 = n
    · subst hn
      rw [AList.lookup_insert, foundAs, Option.bind_some, if_pos rfl, Option.some_or]
    · rw [AList.lookup_insert_ne (Ne.symm hn), hlookup]
      rw [foundAs.eq_def n (some other), Option.bind_some, if_neg hn, Option.none_or]

theorem built_file : ∀ e ∈ i.built t n, e.isFile = true := by
  have hfound {base : String} : ∀ e ∈ foundAs n (t.find base), e.isFile = true := by
    intro e he
    obtain ⟨found, hfind, hn⟩ := Option.bind_eq_some_iff.1 he
    split at hn
    · obtain rfl := Option.some.inj hn
      exact (find_file hfind).1
    · cases hn
  intro e he
  obtain he | ⟨_, he⟩ := Option.or_eq_some_iff.1 he
  · exact hfound e he
  · exact hfound e he

theorem taken_eq {force : Bool} {old : Option (Entry F)} {e : Entry F}
    (h : d.taken force n old = some e) : e.content = d.content n ∧ (d.isFile n = true →
      e.isFile = true) := by
  obtain ⟨source, hsource, hcp⟩ := Option.bind_eq_some_iff.1 h
  refine ⟨?_, fun hfile => ?_⟩
  · rw [BuildDir.content, hsource, Option.bind_some]
    exact Entry.cp_content hcp
  · obtain ⟨source', hsource', hfile⟩ := isFile_iff.1 hfile
    obtain rfl := Option.some.inj (hsource.symm.trans hsource')
    exact Entry.cp_isFile hcp hfile

theorem taken_isSome_iff {old : Option (Entry F)} (hfile : d.isFile n = true) :
    (d.taken false n old).isSome = true ↔ ∀ e ∈ old, e.isFile = true ∧ e.Writable := by
  obtain ⟨source, hsource, hfile⟩ := isFile_iff.1 hfile
  rw [BuildDir.taken, hsource, Option.bind_some]
  exact Entry.cp_isSome_iff hfile

theorem shipped_isSome (h : (i.built t n).isSome = true) : (i.shipped t n).isSome = true := by
  unfold PluginInput.shipped
  split
  next hn =>
    rw [← isFile_eq_content]
    exact (mem_libraries.1 hn).2.2
  next =>
    split
    next hn =>
      rw [← isFile_eq_content]
      exact (mem_libraries.1 hn).2.2
    next =>
      obtain ⟨e, he⟩ := Option.isSome_iff_exists.1 h
      rw [he, Option.bind_some]
      exact Entry.isFile_iff.1 (built_file e he)

theorem installLibraries_content (h : i.installLibraries d lib = some lib')
    (hlib : ∀ n, ∀ e ∈ lib.lookup n, e.isFile = true) (n : String) :
    lib'.content n = (if n ∈ i.libraries d then d.content n else lib.content n) ∧
      ∀ e ∈ lib'.lookup n, e.isFile = true := by
  obtain ⟨hin, hout⟩ := Dir.lookup_each (libraries_nodup i d) h
  by_cases hn : n ∈ i.libraries d
  · obtain ⟨e, htaken, he⟩ := hin n hn
    obtain ⟨hcontent, hfile⟩ := taken_eq htaken
    rw [if_pos hn, BuildDir.content, he]
    refine ⟨hcontent, fun e' he' => ?_⟩
    obtain rfl := Option.some.inj he'
    exact hfile (mem_libraries.1 hn).2.2
  · rw [if_neg hn, BuildDir.content, hout n hn]
    exact ⟨rfl, hlib n⟩

theorem built_files {placed : BuildDir F} (hlookup : ∀ n, placed.lookup n = i.built t n)
    (n : String) : ∀ e ∈ placed.lookup n, e.isFile = true := by
  rw [hlookup]
  exact built_file

/-- The libraries come after what has been built. -/
theorem copyLibraries_eq (h : t.find i.plugin = some found) :
    ∃ placed : BuildDir F, (∀ n, placed.lookup n = i.built t n) ∧ i.copyLibraries t =
      (i.installLibraries t.staged placed).bind (i.installLibraries t.srcLib) := by
  obtain ⟨placed, hplaced, hlookup⟩ := built_placed h
  obtain ⟨first, hfirst, hplaced⟩ := Option.bind_eq_some_iff.1 hplaced
  refine ⟨placed, hlookup, ?_⟩
  rw [PluginInput.copyLibraries, hfirst]
  change (i.installReplicaFactory t first).bind _ = _
  rw [hplaced]
  rfl

theorem copyLibraries_split (h : i.copyLibraries t = some lib) :
    ∃ found placed staged, t.find i.plugin = some found ∧ (∀ n, placed.lookup n = i.built t n) ∧
      i.installLibraries t.staged placed = some staged ∧
      i.installLibraries t.srcLib staged = some lib := by
  cases hfound : t.find i.plugin with
  | none =>
    rw [PluginInput.copyLibraries, PluginInput.installPlugin, hfound] at h
    cases h
  | some found =>
    obtain ⟨placed, hlookup, hcopy⟩ := copyLibraries_eq hfound
    obtain ⟨staged, hstaged, hlib⟩ := Option.bind_eq_some_iff.1 (hcopy.symm.trans h)
    exact ⟨found, placed, staged, rfl, hlookup, hstaged, hlib⟩

theorem copyLibraries_content (h : i.copyLibraries t = some lib) (n : String) :
    lib.content n = i.shipped t n ∧ ∀ e ∈ lib.lookup n, e.isFile = true := by
  obtain ⟨_, placed, staged, _, hlookup, hstaged, hlib⟩ := copyLibraries_split h
  have hfirst := installLibraries_content hstaged (built_files hlookup)
  obtain ⟨hcontent, hfile⟩ := installLibraries_content hlib (fun n => (hfirst n).2) n
  refine ⟨?_, hfile⟩
  rw [hcontent, (hfirst n).1, BuildDir.content.eq_def placed, hlookup]
  rfl

theorem installLibraries_isSome_iff (hlib : ∀ n, ∀ e ∈ lib.lookup n, e.isFile = true) :
    (i.installLibraries d lib).isSome = true ↔
      ∀ n ∈ i.libraries d, ∀ e ∈ lib.lookup n, e.Writable := by
  rw [PluginInput.installLibraries, Dir.each_isSome_iff (libraries_nodup i d)]
  refine forall₂_congr fun n hn => ?_
  rw [taken_isSome_iff (mem_libraries.1 hn).2.2]
  exact ⟨fun h e he => (h e he).2, fun h e he => ⟨hlib n e he, h e he⟩⟩

/-- What a name stands for once the staged libraries are in place, as far as its mode goes: that
of whatever came first. -/
def PluginInput.first (i : PluginInput) (t : BuildTree F) (n : String) : Option (Entry F) :=
  (i.built t n).or (if n ∈ i.libraries t.staged then t.staged.lookup n else none)

theorem staged_writable_iff {placed staged : BuildDir F}
    (hlookup : ∀ n, placed.lookup n = i.built t n)
    (hstaged : i.installLibraries t.staged placed = some staged)
    (hbuilt : ∀ n ∈ i.libraries t.staged, ∀ e ∈ i.built t n, e.Writable) (n : String) :
    (∀ e ∈ staged.lookup n, e.Writable) ↔ ∀ e ∈ i.first t n, e.Writable := by
  obtain ⟨hin, hout⟩ := Dir.lookup_each (libraries_nodup i t.staged) hstaged
  unfold PluginInput.first
  by_cases hn : n ∈ i.libraries t.staged
  · obtain ⟨e, htaken, he⟩ := hin n hn
    obtain ⟨source, hsource, hcp⟩ := Option.bind_eq_some_iff.1 htaken
    rw [hlookup] at hcp
    rw [he, if_pos hn, hsource]
    cases hplaced : i.built t n with
    | none =>
      rw [hplaced, Entry.cp_none] at hcp
      rw [hcp, Option.none_or]
    | some e' =>
      rw [hplaced] at hcp
      rw [Option.some_or]
      refine iff_of_true ?_ fun e'' he'' => hbuilt n hn e'' (hplaced ▸ he'')
      intro e'' he''
      obtain rfl := Option.some.inj he''
      exact Entry.cp_writable hcp
  · rw [hout n hn, hlookup, if_neg hn, Option.or_none]

theorem copyLibraries_isSome_iff : (i.copyLibraries t).isSome = true ↔
    (t.find i.plugin).isSome = true ∧
    (∀ n ∈ i.libraries t.staged, ∀ e ∈ i.built t n, e.Writable) ∧
    ∀ n ∈ i.libraries t.srcLib, ∀ e ∈ i.first t n, e.Writable := by
  cases hfound : t.find i.plugin with
  | none =>
    rw [PluginInput.copyLibraries, PluginInput.installPlugin, hfound]
    exact iff_of_false nofun fun h => absurd h.1 nofun
  | some found =>
    obtain ⟨placed, hlookup, hcopy⟩ := copyLibraries_eq hfound
    have hfiles := built_files hlookup
    have hstage := installLibraries_isSome_iff (i := i) (d := t.staged) hfiles
    simp only [hlookup] at hstage
    rw [hcopy, Option.isSome_some, and_iff_right rfl, ← hstage]
    cases hstaged : i.installLibraries t.staged placed with
    | none => exact iff_of_false nofun fun h => absurd h.1 nofun
    | some staged =>
      have hbuilt := hstage.1 (by rw [hstaged]; rfl)
      rw [Option.bind_some, Option.isSome_some, and_iff_right rfl,
        installLibraries_isSome_iff fun n => (installLibraries_content hstaged hfiles n).2]
      exact forall₂_congr fun n _ => staged_writable_iff hlookup hstaged hbuilt n

end

/-! Mach-O files, after they have been copied. -/

/-- One run of a tool on a file, with what the file had in it. -/
inductive MachRun (F : Type) where
  | change (old new : String) (f : F)
  | otool (f : F)

namespace MachTools
variable (tools : MachTools F)

def changeRuns (new : String) (writable : Bool) : List String → F → List (MachRun F)
  | [], _ => []
  | old :: olds, f =>
    .change old new f :: changeRuns new writable olds ((tools.change old new writable f).getD f)

def relinkToRuns (l : String) (writable : Bool) (f : F) : List (MachRun F) :=
  let rpath := "@rpath/" ++ l
  let f' := (tools.change l rpath writable f).getD f
  .change l rpath f :: .otool f' ::
    match tools.otool f' with
    | some lines => tools.changeRuns rpath writable (lines.filter (tools.grep ("/" ++ l))) f'
    | none => []

def relinkRuns (plugin : String) (writable : Bool) : List String → F → List (MachRun F)
  | [], _ => []
  | l :: libs, f =>
    if l = plugin then relinkRuns plugin writable libs f
    else tools.relinkToRuns l writable f ++
      match tools.relinkTo l writable f with
      | some f' => relinkRuns plugin writable libs f'
      | none => []

def identify (n : String) (writable : Bool) (f : F) : F :=
  (tools.setId ("@rpath/" ++ n) writable f).getD f

end MachTools

namespace PluginInput
variable (i : PluginInput) (tools : MachTools F)

def own : List String := [i.plugin ++ ".dylib", i.replicaFactory ++ ".dylib"]

def identified (n : String) (writable : Bool) (f : F) : F :=
  tools.identify n writable (if n ∈ i.own then tools.identify n writable f else f)

/-- What is run on a plugin that has been copied, for the libraries copied with it. -/
def relinkRuns (lib : BuildDir F) (plugin : String) (writable : Bool) (f : F) :
    List (MachRun F) :=
  tools.relinkRuns plugin writable (lib.expand (hasSuffix ".dylib"))
    (i.identified tools plugin writable f)

/-- The tools do what they have to on the files that have been copied: the plugin and its factory
can be given their names, and whatever a plugin comes to hold can be read. -/
structure Relinkable (lib : BuildDir F) : Prop where
  ids : ∀ n ∈ i.own, ∀ writable f, lib.lookup n = some (.file writable f) →
    (tools.setId ("@rpath/" ++ n) writable f).isSome = true
  reads : ∀ plugin, globMatch "_plugin.dylib" plugin = true → ∀ writable f,
    lib.lookup plugin = some (.file writable f) →
      ∀ g, .otool g ∈ i.relinkRuns tools lib plugin writable f → (tools.otool g).isSome = true

end PluginInput

structure Retouched (lib lib' : BuildDir F) : Prop where
  names : ∀ n, n ∈ lib' ↔ n ∈ lib
  files : ∀ n, lib'.isFile n = lib.isFile n
  others : ∀ n, hasSuffix ".dylib" n = false → lib'.lookup n = lib.lookup n

section
variable {tools : MachTools F} {lib lib' lib'' : BuildDir F} {n : String} {names : List String}
  {tool : String → Bool → F → Option F}

theorem Retouched.refl (lib : BuildDir F) : Retouched lib lib :=
  ⟨fun _ => Iff.rfl, fun _ => rfl, fun _ _ => rfl⟩

theorem Retouched.trans (h : Retouched lib lib') (h' : Retouched lib' lib'') :
    Retouched lib lib'' where
  names n := (h'.names n).trans (h.names n)
  files n := (h'.files n).trans (h.files n)
  others n hn := (h'.others n hn).trans (h.others n hn)

theorem onFile_eq_some {tool : Bool → F → Option F} {old : Option (Entry F)} {e : Entry F} :
    MachTools.onFile tool old = some e ↔
      ∃ writable f f', old = some (.file writable f) ∧ tool writable f = some f' ∧
        e = .file writable f' := by
  match old with
  | none => exact iff_of_false nofun fun ⟨_, _, _, h, _⟩ => absurd h nofun
  | some .dir => exact iff_of_false nofun fun ⟨_, _, _, h, _⟩ => absurd h nofun
  | some (.file writable f) =>
    constructor
    · intro h
      obtain ⟨f', hf', rfl⟩ := Option.map_eq_some_iff.1 h
      exact ⟨writable, f, f', rfl, hf', rfl⟩
    · rintro ⟨_, _, f', ⟨⟩, hf', rfl⟩
      exact Option.map_eq_some_iff.2 ⟨f', hf', rfl⟩

theorem globMatch_iff {suffix n : String} :
    globMatch suffix n = true ↔ globMatch "" n = true ∧ hasSuffix suffix n = true := by
  have hempty : hasSuffix "" n = true := by
    have h := hasSuffix_append n ""
    rwa [String.append_empty] at h
  simp only [globMatch, hempty, Bool.and_eq_true, true_and]
  exact and_assoc.trans and_comm

def retouch (tool : Bool → F → F) : Entry F → Entry F
  | .dir => .dir
  | .file writable f => .file writable (tool writable f)

theorem onFile_or {tool : Bool → F → Option F} (old : Option (Entry F)) :
    (MachTools.onFile tool old).or old =
      old.map (retouch fun writable f => (tool writable f).getD f) := by
  match old with
  | none => rfl
  | some .dir => rfl
  | some (.file writable f) =>
    rw [MachTools.onFile, Option.map_some, retouch]
    cases tool writable f <;> rfl

theorem fixIds_lookup (n : String) : (tools.fixIds lib).lookup n =
    if globMatch ".dylib" n then (lib.lookup n).map (retouch (tools.identify n))
    else lib.lookup n := by
  have hlookup := Dir.lookup_attempt (d := lib) (expand_nodup lib (hasSuffix ".dylib"))
    (f := fun n => MachTools.onFile (tools.setId ("@rpath/" ++ n))) n
  refine hlookup.trans ?_
  rw [onFile_or]
  by_cases hglob : globMatch ".dylib" n = true
  · rw [if_pos hglob]
    split
    next => rfl
    next hn =>
      have hnone : lib.lookup n = none := AList.lookup_eq_none.2 fun hmem =>
        hn (mem_expand.2 ⟨hmem, globMatch_iff.1 hglob⟩)
      rw [hnone, Option.map_none]
  · rw [if_neg hglob, if_neg fun hn => hglob (globMatch_iff.2 (mem_expand.1 hn).2)]

theorem fixId_isSome_iff : (tools.fixId n lib).isSome = true ↔
    ∀ writable f, lib.lookup n = some (.file writable f) →
      (tools.setId ("@rpath/" ++ n) writable f).isSome = true := by
  unfold MachTools.fixId
  split
  next hfile =>
    obtain ⟨e, he, hfile⟩ := isFile_iff.1 hfile
    obtain ⟨writable, f, rfl⟩ := Entry.isFile_eq.1 hfile
    rw [Dir.each_isSome_iff (List.nodup_singleton n), List.forall_mem_singleton,
      Option.mem_def.1 he, MachTools.onFile, Option.isSome_map]
    constructor
    · rintro h _ _ ⟨⟩
      exact h
    · exact fun h => h writable f rfl
  next hfile =>
    refine iff_of_true rfl fun writable f hn => absurd ?_ hfile
    rw [BuildDir.isFile, hn]
    rfl

theorem fixId_lookup (h : tools.fixId n lib = some lib') (m : String) : lib'.lookup m =
    if m = n then (lib.lookup m).map (retouch (tools.identify n)) else lib.lookup m := by
  unfold MachTools.fixId at h
  split at h
  next =>
    obtain ⟨hin, hout⟩ := Dir.lookup_each (List.nodup_singleton n) h
    split
    next hm =>
      obtain ⟨e, htool, he⟩ := hin m (List.mem_singleton.2 hm)
      obtain ⟨writable, f, f', hold, hset, rfl⟩ := onFile_eq_some.1 htool
      subst hm
      rw [he, hold, Option.map_some, retouch, MachTools.identify, hset, Option.getD_some]
    next hm => exact hout m fun hmem => hm (List.mem_singleton.1 hmem)
  next hfile =>
    obtain rfl := Option.some.inj h
    split
    next hm =>
      subst hm
      cases he : lib.lookup m with
      | none => rfl
      | some e =>
        cases e with
        | dir => rfl
        | file => exact absurd (by rw [BuildDir.isFile, he]; rfl) hfile
    next => rfl

theorem Retouched.of_lookup (h : ∀ n, lib'.lookup n = lib.lookup n ∨
    (hasSuffix ".dylib" n = true ∧ lib.isFile n = true ∧ lib'.isFile n = true)) :
    Retouched lib lib' where
  names n := by
    obtain he | ⟨_, hold, hnew⟩ := h n
    · rw [← AList.lookup_isSome, ← AList.lookup_isSome, he]
    · exact iff_of_true (mem_of_isFile hnew) (mem_of_isFile hold)
  files n := by
    obtain he | ⟨_, hold, hnew⟩ := h n
    · rw [BuildDir.isFile, BuildDir.isFile, he]
    · rw [hold, hnew]
  others n hn := by
    obtain he | ⟨hsuffix, _⟩ := h n
    · exact he
    · exact absurd (hn.symm.trans hsuffix) Bool.false_ne_true

theorem onFile_isFile {tool : Bool → F → Option F} {e : Entry F}
    (h : MachTools.onFile tool (lib.lookup n) = some e) (he : lib'.lookup n = some e) :
    lib.isFile n = true ∧ lib'.isFile n = true := by
  obtain ⟨writable, f, f', hold, _, rfl⟩ := onFile_eq_some.1 h
  rw [BuildDir.isFile, BuildDir.isFile, hold, he]
  exact ⟨rfl, rfl⟩

theorem Retouched.each (hnodup : names.Nodup) (hsuffix : ∀ n ∈ names, hasSuffix ".dylib" n = true)
    (h : lib.each names (fun n => MachTools.onFile (tool n)) = some lib') :
    Retouched lib lib' := by
  obtain ⟨hin, hout⟩ := Dir.lookup_each hnodup h
  apply Retouched.of_lookup
  intro n
  by_cases hn : n ∈ names
  · obtain ⟨e, htool, he⟩ := hin n hn
    exact .inr ⟨hsuffix n hn, onFile_isFile htool he⟩
  · exact .inl (hout n hn)

theorem fixId_retouched (hn : hasSuffix ".dylib" n = true) (h : tools.fixId n lib = some lib') :
    Retouched lib lib' := by
  unfold MachTools.fixId at h
  split at h
  · exact .each (List.nodup_singleton n) (fun m hm => List.mem_singleton.1 hm ▸ hn) h
  · obtain rfl := Option.some.inj h
    exact .refl lib

theorem fixIds_retouched : Retouched lib (tools.fixIds lib) := by
  apply Retouched.of_lookup
  intro n
  have hlookup := Dir.lookup_attempt (d := lib) (expand_nodup lib (hasSuffix ".dylib"))
    (f := fun n => MachTools.onFile (tools.setId ("@rpath/" ++ n))) n
  by_cases hn : n ∈ lib.expand (hasSuffix ".dylib")
  · rw [if_pos hn] at hlookup
    cases htool : MachTools.onFile (tools.setId ("@rpath/" ++ n)) (lib.lookup n) with
    | none => exact .inl (hlookup.trans (by rw [htool, Option.none_or]))
    | some e =>
      rw [htool, Option.some_or] at hlookup
      exact .inr ⟨(mem_expand.1 hn).2.2, onFile_isFile htool hlookup⟩
  · exact .inl (hlookup.trans (if_neg hn))

theorem fixReferences_retouched (h : tools.fixReferences lib = some lib') :
    Retouched lib lib' := by
  refine .each ((expand_nodup lib _).filter _) (fun n hn => ?_) h
  have hsuffix := (mem_expand.1 (List.mem_filter.1 hn).1).2.2
  exact hasSuffix_trans (by decide) hsuffix

theorem fixLibraryPaths_retouched {i : PluginInput} (h : i.fixLibraryPaths tools lib = some lib') :
    Retouched lib lib' := by
  unfold PluginInput.fixLibraryPaths at h
  split at h
  · obtain ⟨first, hfirst, h⟩ := Option.bind_eq_some_iff.1 h
    obtain ⟨second, hsecond, h⟩ := Option.bind_eq_some_iff.1 h
    have hids := (fixId_retouched (hasSuffix_append ..) hfirst).trans
      (fixId_retouched (hasSuffix_append ..) hsecond)
    exact (hids.trans fixIds_retouched).trans (fixReferences_retouched h)
  · obtain rfl := Option.some.inj h
    exact .refl lib

theorem relinkTo_isSome {l : String} {writable : Bool} {f : F} :
    (tools.relinkTo l writable f).isSome =
      (tools.otool ((tools.change l ("@rpath/" ++ l) writable f).getD f)).isSome :=
  Option.isSome_map ..

theorem changeRuns_reads {new : String} {writable : Bool} {olds : List String} {f g : F} :
    .otool g ∉ tools.changeRuns new writable olds f := by
  induction olds generalizing f with
  | nil => exact List.not_mem_nil
  | cons old olds ih =>
    intro hmem
    obtain he | hmem := List.mem_cons.1 hmem
    · cases he
    · exact ih hmem

theorem relinkToRuns_reads {l : String} {writable : Bool} {f g : F} :
    .otool g ∈ tools.relinkToRuns l writable f ↔
      g = (tools.change l ("@rpath/" ++ l) writable f).getD f := by
  rw [MachTools.relinkToRuns, List.mem_cons, List.mem_cons, or_iff_right (by nofun),
    MachRun.otool.injEq, or_iff_left_iff_imp]
  intro hmem
  split at hmem
  · exact absurd hmem changeRuns_reads
  · cases hmem

theorem relink_isSome_iff {plugin : String} {libs : List String} {writable : Bool} {f : F} :
    (tools.relink plugin libs writable f).isSome = true ↔
      ∀ g, .otool g ∈ tools.relinkRuns plugin writable libs f →
        (tools.otool g).isSome = true := by
  induction libs generalizing f with
  | nil => exact iff_of_true rfl fun _ hg => absurd hg List.not_mem_nil
  | cons l libs ih =>
    rw [MachTools.relink, List.foldlM_cons, MachTools.relinkRuns]
    by_cases hl : l = plugin
    · rw [if_pos hl, if_pos hl]
      exact ih
    · rw [if_neg hl, if_neg hl]
      simp only [List.mem_append, relinkToRuns_reads]
      have hturn : (tools.relinkTo l writable f).isSome = _ := relinkTo_isSome
      cases hrelink : tools.relinkTo l writable f with
      | none =>
        rw [hrelink] at hturn
        refine iff_of_false nofun fun hreads => ?_
        have hread := hreads _ (.inl rfl)
        rw [← hturn] at hread
        cases hread
      | some f' =>
        rw [hrelink] at hturn
        refine ih.trans ⟨fun h g hg => ?_, fun h g hg => h g (.inr hg)⟩
        obtain rfl | hg := hg
        · exact hturn.symm
        · exact h g hg

end

section
variable {i : PluginInput} {tools : MachTools F} {lib first second : BuildDir F} {n : String}

theorem expand_congr {d d' : BuildDir F} (h : ∀ n, n ∈ d' ↔ n ∈ d) (glob : String → Bool) :
    d'.expand glob = d.expand glob := by
  have hperm : (d'.expand glob).Perm (d.expand glob) := by
    refine (List.perm_ext_iff_of_nodup (expand_nodup ..) (expand_nodup ..)).2 fun n => ?_
    rw [mem_expand, mem_expand, h]
  exact hperm.eq_of_pairwise' (List.pairwise_insertionSort ..) (List.pairwise_insertionSort ..)

theorem identified_lookup (hfirst : tools.fixId (i.plugin ++ ".dylib") lib = some first)
    (hsecond : tools.fixId (i.replicaFactory ++ ".dylib") first = some second)
    (hn : globMatch ".dylib" n = true) : (tools.fixIds second).lookup n =
      (lib.lookup n).map (retouch (i.identified tools n)) := by
  rw [fixIds_lookup, if_pos hn, fixId_lookup hsecond, fixId_lookup hfirst]
  by_cases hfactory : n = i.replicaFactory ++ ".dylib"
  · have hplugin : n ≠ i.plugin ++ ".dylib" := hfactory ▸ (plugin_ne i _ _).symm
    have hown : n ∈ i.own := hfactory ▸ List.mem_cons_of_mem _ (List.mem_singleton_self _)
    rw [if_pos hfactory, if_neg hplugin, ← hfactory, Option.map_map]
    refine congrArg (Option.map · _) (funext fun e => ?_)
    cases e with
    | dir => rfl
    | file => simp only [Function.comp_apply, retouch, PluginInput.identified, if_pos hown]
  · rw [if_neg hfactory]
    by_cases hplugin : n = i.plugin ++ ".dylib"
    · have hown : n ∈ i.own := hplugin ▸ List.mem_cons_self ..
      rw [if_pos hplugin, ← hplugin, Option.map_map]
      refine congrArg (Option.map · _) (funext fun e => ?_)
      cases e with
      | dir => rfl
      | file => simp only [Function.comp_apply, retouch, PluginInput.identified, if_pos hown]
    · have hown : n ∉ i.own := by
        simp only [PluginInput.own, List.mem_cons, hplugin, hfactory, List.not_mem_nil,
          or_self, not_false_eq_true]
      rw [if_neg hplugin]
      refine congrArg (Option.map · _) (funext fun e => ?_)
      cases e with
      | dir => rfl
      | file => simp only [retouch, PluginInput.identified, if_neg hown]

theorem lookup_retouch {tool : Bool → F → F} {old : Option (Entry F)} {writable : Bool} {f' : F} :
    old.map (retouch tool) = some (.file writable f') ↔
      ∃ f, old = some (.file writable f) ∧ tool writable f = f' := by
  rw [Option.map_eq_some_iff]
  constructor
  · rintro ⟨e, he, hretouch⟩
    cases e with
    | dir => cases hretouch
    | file mode f =>
      obtain ⟨rfl, rfl⟩ := Entry.file.inj hretouch
      exact ⟨f, he, rfl⟩
  · rintro ⟨f, hf, rfl⟩
    exact ⟨_, hf, rfl⟩

theorem fixReferences_isSome_iff : (tools.fixReferences lib).isSome = true ↔
    ∀ plugin, globMatch "_plugin.dylib" plugin = true → ∀ writable f,
      lib.lookup plugin = some (.file writable f) →
        (tools.relink plugin (lib.expand (hasSuffix ".dylib")) writable f).isSome = true := by
  rw [MachTools.fixReferences, Dir.each_isSome_iff ((expand_nodup _ _).filter _)]
  constructor
  · intro h plugin hglob writable f hf
    have hfile : lib.isFile plugin = true := by
      rw [BuildDir.isFile, hf]
      rfl
    have hsome := h plugin (List.mem_filter.2
      ⟨mem_expand.2 ⟨mem_of_isFile hfile, globMatch_iff.1 hglob⟩, hfile⟩)
    rwa [hf, MachTools.onFile, Option.isSome_map] at hsome
  · intro h plugin hmem
    obtain ⟨hmem, hfile⟩ := List.mem_filter.1 hmem
    obtain ⟨e, he, hfile⟩ := isFile_iff.1 hfile
    obtain ⟨writable, f, rfl⟩ := Entry.isFile_eq.1 hfile
    rw [Option.mem_def.1 he, MachTools.onFile, Option.isSome_map]
    exact h plugin (globMatch_iff.2 (mem_expand.1 hmem).2) writable f he

theorem identified_file (hfirst : tools.fixId (i.plugin ++ ".dylib") lib = some first)
    (hsecond : tools.fixId (i.replicaFactory ++ ".dylib") first = some second)
    (hn : globMatch "_plugin.dylib" n = true) {writable : Bool} {f' : F} :
    (tools.fixIds second).lookup n = some (.file writable f') ↔
      ∃ f, lib.lookup n = some (.file writable f) ∧ i.identified tools n writable f = f' := by
  have hdylib : globMatch ".dylib" n = true :=
    globMatch_iff.2 ((globMatch_iff.1 hn).imp_right (hasSuffix_trans (by decide)))
  rw [identified_lookup hfirst hsecond hdylib, lookup_retouch]

theorem identified_expand (hfirst : tools.fixId (i.plugin ++ ".dylib") lib = some first)
    (hsecond : tools.fixId (i.replicaFactory ++ ".dylib") first = some second)
    (glob : String → Bool) : (tools.fixIds second).expand glob = lib.expand glob := by
  have hids := (fixId_retouched (hasSuffix_append ..) hfirst).trans
    (fixId_retouched (hasSuffix_append ..) hsecond)
  exact expand_congr (hids.trans fixIds_retouched).names glob

theorem fixLibraryPaths_isSome_iff (hdarwin : i.isDarwin = true) :
    (i.fixLibraryPaths tools lib).isSome = true ↔ i.Relinkable tools lib := by
  have hids : i.Relinkable tools lib ↔
      (∀ n ∈ i.own, (tools.fixId n lib).isSome = true) ∧
      ∀ plugin, globMatch "_plugin.dylib" plugin = true → ∀ writable f,
        lib.lookup plugin = some (.file writable f) →
        (tools.relink plugin (lib.expand (hasSuffix ".dylib")) writable
          (i.identified tools plugin writable f)).isSome = true := by
    simp only [fixId_isSome_iff, relink_isSome_iff]
    exact ⟨fun h => ⟨h.ids, h.reads⟩, fun h => ⟨h.1, h.2⟩⟩
  rw [hids, PluginInput.own, List.forall_mem_cons, List.forall_mem_singleton,
    PluginInput.fixLibraryPaths, if_pos hdarwin]
  cases hfirst : tools.fixId (i.plugin ++ ".dylib") lib with
  | none => exact iff_of_false nofun fun h => absurd h.1.1 nofun
  | some first =>
    have hfactory : (tools.fixId (i.replicaFactory ++ ".dylib") first).isSome =
        (tools.fixId (i.replicaFactory ++ ".dylib") lib).isSome := by
      rw [Bool.eq_iff_iff, fixId_isSome_iff, fixId_isSome_iff, fixId_lookup hfirst,
        if_neg (plugin_ne i _ _).symm]
    rw [← hfactory]
    change ((tools.fixId (i.replicaFactory ++ ".dylib") first).bind _).isSome = true ↔ _
    cases hsecond : tools.fixId (i.replicaFactory ++ ".dylib") first with
    | none => exact iff_of_false nofun fun h => absurd h.1.2 nofun
    | some second =>
      rw [Option.bind_some, fixReferences_isSome_iff]
      simp only [Option.isSome_some, and_self, true_and]
      refine forall₂_congr fun plugin hglob => ?_
      simp only [identified_file hfirst hsecond hglob, identified_expand hfirst hsecond]
      constructor
      · exact fun h writable f hf => h writable _ ⟨f, hf, rfl⟩
      · rintro h writable _ ⟨f, hf, rfl⟩
        exact h writable f hf

end

section
variable {i : PluginInput} {tools : MachTools F} {t : BuildTree F} {out : PluginOutput F}

theorem installPhase_split (h : i.installPhase tools t = some out) :
    ∃ lib, i.copyLibraries t = some lib ∧ i.fixLibraryPaths tools lib = some out.lib ∧
      t.installInclude = some out.includeDir ∧ out.logos = i.installSidecar t := by
  obtain ⟨lib, hlib, h⟩ := Option.bind_eq_some_iff.1 h
  obtain ⟨fixed, hfixed, h⟩ := Option.bind_eq_some_iff.1 h
  obtain ⟨includeDir, hinclude, h⟩ := Option.bind_eq_some_iff.1 h
  obtain rfl := Option.some.inj h
  exact ⟨lib, hlib, hfixed, hinclude, rfl⟩

theorem sidecar_content (i : PluginInput) (t : BuildTree F) (n : String) :
    (i.installSidecar t).content n =
      if n = i.sidecar then t.generatedCode.content n else none := by
  have hnodup : ([i.sidecar].filter t.generatedCode.isFile).Nodup :=
    (List.nodup_singleton _).filter _
  rw [BuildDir.content, PluginInput.installSidecar, Dir.lookup_attempt hnodup,
    AList.lookup_empty, Option.or_none]
  by_cases hn : n = i.sidecar
  · subst hn
    rw [if_pos rfl]
    cases he : t.generatedCode.lookup i.sidecar with
    | none => simp [BuildDir.taken, BuildDir.content, he]
    | some e =>
      have hcp : t.generatedCode.taken false i.sidecar none = some e := by
        rw [BuildDir.taken, he, Option.bind_some, Entry.cp_none]
      rw [hcp, BuildDir.content, he]
      cases e with
      | dir => split <;> rfl
      | file writable content =>
        have hfile : t.generatedCode.isFile i.sidecar = true := by
          rw [BuildDir.isFile, he]
          rfl
        rw [if_pos (List.mem_filter.2 ⟨List.mem_singleton_self _, hfile⟩)]
  · have hnot : n ∉ [i.sidecar].filter t.generatedCode.isFile := fun hmem =>
      hn (List.mem_singleton.1 (List.mem_filter.1 hmem).1)
    rw [if_neg hnot, if_neg hn, Option.bind_none]

theorem installInclude_isSome_iff : t.installInclude.isSome = true ↔
    ∀ d ∈ t.includeDir, ∃ n ∈ d, globMatch "" n = true := by
  cases hdir : t.includeDir with
  | none =>
    rw [BuildTree.installInclude, hdir]
    exact iff_of_true rfl fun _ hd => absurd hd nofun
  | some d =>
    have hmem : (∀ d' ∈ some d, ∃ n ∈ d', globMatch "" n = true) ↔
        ∃ n, n ∈ d.expand fun _ => true := by
      simp only [mem_expand, Option.mem_some_iff, forall_eq', and_true]
    have hinclude : t.installInclude = if (d.expand fun _ => true).isEmpty then none
        else (∅ : BuildDir F).each (d.expand fun _ => true) (d.taken false) := by
      rw [BuildTree.installInclude, hdir]
    rw [hmem, hinclude]
    by_cases hempty : (d.expand fun _ => true).isEmpty = true
    · rw [if_pos hempty, List.isEmpty_iff.1 hempty]
      exact iff_of_false nofun fun ⟨_, hn⟩ => absurd hn List.not_mem_nil
    · refine iff_of_true ?_ (List.exists_mem_of_ne_nil _ fun h => hempty (List.isEmpty_iff.2 h))
      rw [if_neg hempty, Dir.each_isSome_iff (expand_nodup d _)]
      intro n hn
      obtain ⟨e, he⟩ := Option.isSome_iff_exists.1 (AList.lookup_isSome.2 (mem_expand.1 hn).1)
      rw [AList.lookup_empty, BuildDir.taken, he, Option.bind_some, Entry.cp_none]
      rfl

/-- The installation fails exactly where no plugin has been built, where a library would go over a
file that cannot be written, where on Darwin the plugin or its factory cannot be given its name or
what a plugin holds cannot be read, or where there is a directory for generated headers with
nothing in it. -/
theorem plugin_installable_iff (i : PluginInput) (tools : MachTools F) (t : BuildTree F) :
    (i.installPhase tools t).isSome = true ↔
      (t.find i.plugin).isSome = true ∧
      (∀ n ∈ i.libraries t.staged, ∀ e ∈ i.built t n, e.Writable) ∧
      (∀ n ∈ i.libraries t.srcLib, ∀ e ∈ i.first t n, e.Writable) ∧
      (i.isDarwin = true → ∀ lib, i.copyLibraries t = some lib → i.Relinkable tools lib) ∧
      ∀ d ∈ t.includeDir, ∃ n ∈ d, globMatch "" n = true := by
  rw [← installInclude_isSome_iff]
  have hcopy := copyLibraries_isSome_iff (i := i) (t := t)
  constructor
  · intro h
    obtain ⟨out, hout⟩ := Option.isSome_iff_exists.1 h
    obtain ⟨lib, hlib, hfixed, hinclude, _⟩ := installPhase_split hout
    rw [hlib] at hcopy
    obtain ⟨hplugin, hstaged, hsrc⟩ := hcopy.1 rfl
    refine ⟨hplugin, hstaged, hsrc, fun hdarwin lib' hlib' => ?_, by rw [hinclude]; rfl⟩
    obtain rfl := Option.some.inj (hlib.symm.trans hlib')
    rw [← fixLibraryPaths_isSome_iff hdarwin, hfixed]
    rfl
  · rintro ⟨hplugin, hstaged, hsrc, hfixed, hinclude⟩
    obtain ⟨lib, hlib⟩ := Option.isSome_iff_exists.1 (hcopy.2 ⟨hplugin, hstaged, hsrc⟩)
    have hpaths : (i.fixLibraryPaths tools lib).isSome = true := by
      cases hdarwin : i.isDarwin with
      | true => exact (fixLibraryPaths_isSome_iff hdarwin).2 (hfixed hdarwin lib hlib)
      | false => rw [PluginInput.fixLibraryPaths, hdarwin]; rfl
    obtain ⟨fixed, hfixed⟩ := Option.isSome_iff_exists.1 hpaths
    obtain ⟨includeDir, hinclude⟩ := Option.isSome_iff_exists.1 hinclude
    rw [PluginInput.installPhase, hlib]
    change ((i.fixLibraryPaths tools lib).bind _).isSome = true
    rw [hfixed]
    change (t.installInclude.bind _).isSome = true
    rw [hinclude]
    rfl

/-- A plugin that has been installed is the one that was built, with its libraries: the names in
`$out/lib` are those of the plugin, its factory, the staged libraries and the source's, each with
the content of the last of these, and nothing but the dylibs of a Darwin build is touched after
that; the contract that goes with it is its own. -/
theorem plugin_installed (h : i.installPhase tools t = some out) :
    (∃ found, t.find i.plugin = some found ∧ found.1 ∈ out.lib) ∧
    (∀ n, n ∈ out.lib ↔ (i.shipped t n).isSome = true) ∧
    (∀ n, (i.isDarwin = false ∨ hasSuffix ".dylib" n = false) →
      out.lib.content n = i.shipped t n) ∧
    ∀ n, out.logos.content n = if n = i.sidecar then t.generatedCode.content n else none := by
  obtain ⟨lib, hlib, hfixed, _, hlogos⟩ := installPhase_split h
  have hcontent := copyLibraries_content hlib
  have hretouched := fixLibraryPaths_retouched hfixed
  have hmem (n : String) : n ∈ out.lib ↔ (i.shipped t n).isSome = true := by
    rw [hretouched.names, ← (hcontent n).1, ← AList.lookup_isSome, BuildDir.content]
    cases he : lib.lookup n with
    | none => rfl
    | some e => exact iff_of_true rfl (Entry.isFile_iff.1 ((hcontent n).2 e he))
  refine ⟨?_, hmem, ?_, fun n => hlogos ▸ sidecar_content i t n⟩
  · obtain ⟨found, _, _, hfound, _⟩ := copyLibraries_split hlib
    refine ⟨found, hfound, (hmem found.1).2 (shipped_isSome ?_)⟩
    rw [PluginInput.built, hfound, Option.isSome_or, foundAs.eq_def _ (some found),
      Option.bind_some, if_pos rfl, Option.isSome_some, Bool.or_true]
  · rintro n (hd | hn)
    · rw [PluginInput.fixLibraryPaths, hd] at hfixed
      obtain rfl := Option.some.inj hfixed
      exact (hcontent n).1
    · rw [BuildDir.content, hretouched.others n hn]
      exact (hcontent n).1

end

/-- A Mach-O file is the references it has; it can be changed if it can be written. -/
def plainTools : MachTools (List String) where
  refs := id
  setId _ writable f := if writable then some f else none
  change old new writable f :=
    if writable then some (f.map fun r => if r = old then new else r) else none
  otool := some
  grep pattern line := line.toList.tails.any pattern.toList.isPrefixOf
  setId_refs h := by
    split at h
    · obtain rfl := Option.some.inj h
      rfl
    · cases h
  change_refs h := by
    split at h
    · obtain rfl := Option.some.inj h
      rfl
    · cases h
  otool_refs h r hr _ := Option.some.inj h ▸ hr
  grep_literal _ h := by
    obtain ⟨a, b, hline⟩ := h
    refine List.any_eq_true.2 ⟨_, (List.mem_tails _ _).2 ⟨a, ?_⟩,
      List.isPrefixOf_iff_prefix.2 ⟨b, rfl⟩⟩
    rw [← List.append_assoc, hline]

/-- A plugin that names a staged library by its bare name and by its path in the store. -/
def calcTree : BuildTree (List String) where
  modules := (∅ : BuildDir _).insert "demo_plugin.dylib"
    (.file true ["libcalc.dylib", "/nix/store/calc/lib/libcalc.dylib"])
  build := ∅
  staged := (∅ : BuildDir _).insert "libcalc.dylib" (.file true [])
  srcLib := ∅
  includeDir := none
  generatedCode := (∅ : BuildDir _).insert "demo.lidl" (.file true [])

def calcPlugin : PluginInput := ⟨"demo", true, false⟩

theorem calc_installed : ∃ out, calcPlugin.installPhase plainTools calcTree = some out ∧
    out.lib.lookup "demo_plugin.dylib" =
      some (.file true ["@rpath/libcalc.dylib", "@rpath/libcalc.dylib"]) ∧
    "libcalc.dylib" ∈ out.lib := by
  have hsome : (calcPlugin.installPhase plainTools calcTree).isSome = true := by decide +kernel
  exact ⟨_, (Option.some_get hsome).symm, by decide +kernel +revert, by decide +kernel +revert⟩

theorem plugin_installed_calc : ∃ out, calcPlugin.installPhase plainTools calcTree = some out ∧
    ∀ n, n ∈ out.lib ↔ (calcPlugin.shipped calcTree n).isSome = true := by
  obtain ⟨out, hout, _⟩ := calc_installed
  exact ⟨out, hout, (plugin_installed hout).2.1⟩

end LogosPluginQt
