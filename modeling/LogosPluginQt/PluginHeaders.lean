import LogosPluginQt.HeaderBuild
import LogosPluginQt.PluginInstall

namespace LogosPluginQt
open Directories ShellScript
set_option autoImplicit true

/-- What a headers derivation sees of the plugin it is given; beside the module's own contract
there may be those of its dependencies. -/
structure Presents (i : PluginInput) (s : HeadersTree) (path : String) (out : PluginOutput F) :
    Prop where
  lib : ∀ n, (s (path ++ "/lib")).has n = out.lib.isFile n
  logos : (s (path ++ "/share/logos")).has i.sidecar = out.logos.isFile i.sidecar

def PluginInput.introspected (i : PluginInput) (t : BuildTree F) : String :=
  if (i.shipped t (i.plugin ++ ".dylib")).isSome then i.plugin ++ ".dylib" else i.plugin ++ ".so"

section
variable {i : PluginInput} {tools : MachTools F} {t : BuildTree F} {out : PluginOutput F}

theorem installed_isFile (h : i.installPhase tools t = some out) (n : String) :
    out.lib.isFile n = (i.shipped t n).isSome := by
  obtain ⟨lib, hlib, hfixed, _⟩ := installPhase_split h
  rw [(fixLibraryPaths_retouched hfixed).files, isFile_eq_content, (copyLibraries_content hlib n).1]

theorem sidecar_isFile (h : i.installPhase tools t = some out) :
    out.logos.isFile i.sidecar = t.generatedCode.isFile i.sidecar := by
  rw [isFile_eq_content, isFile_eq_content, (plugin_installed h).2.2.2, if_pos rfl]

/-- The headers of an installed plugin are made from that plugin: the derivation never fails for
want of one, and is told of the module's contract exactly where its generation has left one. -/
theorem headers_introspect_installed (hi : HeadersInput)
    (tool : HeadersCall → HeadersTree → Nat → HeadersTree → Prop) {s : HeadersTree}
    (h : i.installPhase tools t = some out) (hname : hi.name = i.name)
    (hs : Presents i s hi.lib out)
    (hdll : ∀ found, t.find i.plugin = some found → found.1 ≠ i.plugin ++ ".dll")
    (o : Option Nat) (s' : HeadersTree) :
    Exec tool s hi.nativeLegacyBuildPhase o s' ↔
      Exec tool s (generateModuleHeaders (hi.nativeBuildInputs.contains .cppGenerator)
        [hi.lib ++ "/lib/" ++ i.introspected t, generatedHeaders, hi.apiStyle,
          if t.generatedCode.isFile i.sidecar then hi.lib ++ "/share/logos/" ++ i.name ++ ".lidl"
          else ""]) o s' := by
  have hdylib : hi.name ++ "_plugin.dylib" = i.plugin ++ ".dylib" := by
    rw [hname, PluginInput.plugin, String.append_assoc]
    rfl
  have hso : hi.name ++ "_plugin.so" = i.plugin ++ ".so" := by
    rw [hname, PluginInput.plugin, String.append_assoc]
    rfl
  have hintrospect (plugin : String) : Exec tool s (hi.introspect plugin) o s' ↔
      Exec tool s (generateModuleHeaders (hi.nativeBuildInputs.contains .cppGenerator)
        [plugin, generatedHeaders, hi.apiStyle,
          if t.generatedCode.isFile i.sidecar then hi.lib ++ "/share/logos/" ++ i.name ++ ".lidl"
          else ""]) o s' := by
    have hsidecar : (s (hi.lib ++ "/share/logos")).has (i.name ++ ".lidl") =
        t.generatedCode.isFile i.sidecar := hs.logos.trans (sidecar_isFile h)
    rw [HeadersInput.introspect, hname]
    cases hfile : t.generatedCode.isFile i.sidecar with
    | true => exact exec_ite_of_true (hsidecar.trans hfile)
    | false => exact exec_ite_of_false (hsidecar.trans hfile)
  have hshipped (n : String) : (s (hi.lib ++ "/lib")).has n = (i.shipped t n).isSome :=
    (hs.lib n).trans (installed_isFile h n)
  rw [HeadersInput.nativeLegacyBuildPhase, hdylib, hso, PluginInput.introspected]
  cases hfirst : (i.shipped t (i.plugin ++ ".dylib")).isSome with
  | true =>
    rw [if_pos rfl, ← hintrospect]
    exact exec_ite_of_true ((hshipped _).trans hfirst)
  | false =>
    have hsecond : (i.shipped t (i.plugin ++ ".so")).isSome = true := by
      obtain ⟨⟨found, hfound, hmem⟩, hnames, _⟩ := plugin_installed h
      obtain ⟨_, ext, hext, hf⟩ := find_file hfound
      rw [hnames, hf, String.append_assoc] at hmem
      obtain rfl | hext := List.mem_cons.1 hext
      · exact absurd (hfirst.symm.trans hmem) Bool.false_ne_true
      · obtain rfl | hext := List.mem_cons.1 hext
        · exact hmem
        · obtain rfl := List.mem_singleton.1 hext
          exact absurd (hf.trans (String.append_assoc ..)) (hdll found hfound)
    rw [if_neg Bool.false_ne_true, ← hintrospect]
    rw [exec_ite_of_false, exec_ite_of_true]
    · exact (hshipped _).trans hsecond
    · exact (hshipped _).trans hfirst

end

def listing (d : BuildDir F) : Listing :=
  (d.keys.filter d.isFile).map fun n => (n, ⟨.module, ""⟩)

theorem listing_has (d : BuildDir F) (n : String) : (listing d).has n = d.isFile n := by
  rw [Bool.eq_iff_iff, Listing.has, Listing.lookup, Option.isSome_map, List.find?_isSome]
  constructor
  · rintro ⟨entry, hentry, hn⟩
    obtain ⟨m, hm, rfl⟩ := List.mem_map.1 hentry
    obtain rfl := eq_of_beq hn
    exact (List.mem_filter.1 hm).2
  · intro hn
    have hmem : n ∈ d.keys.filter d.isFile :=
      List.mem_filter.2 ⟨AList.mem_keys.1 (mem_of_isFile hn), hn⟩
    exact ⟨_, List.mem_map.2 ⟨n, hmem, rfl⟩, beq_self_eq_true n⟩

def presenting (path : String) (out : PluginOutput F) : HeadersTree := fun p =>
  if p = path ++ "/lib" then listing out.lib
  else if p = path ++ "/share/logos" then listing out.logos else []

theorem presents (i : PluginInput) (path : String) (out : PluginOutput F) :
    Presents i (presenting path out) path out where
  lib n := by rw [presenting, if_pos rfl, listing_has]
  logos := by
    have hne : path ++ "/share/logos" ≠ path ++ "/lib" := by
      intro h
      have hlist := congrArg String.toList h
      rw [String.toList_append, String.toList_append] at hlist
      exact absurd (List.append_cancel_left hlist) (by decide)
    rw [presenting, if_neg hne, if_pos rfl, listing_has]

def calcHeaders : HeadersInput := ⟨"demo", "0.1.0", "qt", none, false, false, "demo-lib"⟩

/-- A generator that fails is run on it, and fails the derivation with its own status. -/
theorem headers_introspect_installed_calc : ∃ s : HeadersTree,
    Exec (fun _ s status s' => status = 3 ∧ s' = s) s calcHeaders.nativeLegacyBuildPhase
      (some 3) s := by
  obtain ⟨out, hout, _⟩ := calc_installed
  refine ⟨presenting calcHeaders.lib out, ?_⟩
  refine (headers_introspect_installed calcHeaders _ hout rfl (presents _ _ out) ?_ _ _).2
    (.seq (.yes rfl (.skip _)) (.stop (.fail ⟨rfl, rfl⟩ (by decide))))
  intro found hfound
  have hfind : calcTree.find calcPlugin.plugin = some ("demo_plugin.dylib",
      .file true ["libcalc.dylib", "/nix/store/calc/lib/libcalc.dylib"]) := by decide +kernel
  obtain rfl := Option.some.inj (hfind.symm.trans hfound)
  decide

end LogosPluginQt
