import LogosPluginQt.PluginInstall

namespace LogosPluginQt
open Directories
set_option autoImplicit true

/-! What an installed plugin names its libraries by. -/

/-- A name that `awk` and `read` hand on whole. -/
def PlainField (r : String) : Prop := ∀ c ∈ r.toList, c.isWhitespace = false ∧ c ≠ '\\'

/-- A name in which `grep` takes nothing for an operator that matches less than itself. -/
def PlainPattern (l : String) : Prop := ∀ c ∈ l.toList, c ∉ "[\\*^$".toList

/-- The reference names the library `l`, by its bare name or under some directory. -/
def Names (r l : String) : Prop := r = l ∨ ("/" ++ l).toList <:+ r.toList

/-- The tool was run on the plugin to replace the reference, which the plugin had, and failed. -/
def ChangeRefused (tools : MachTools F) (writable : Bool) (runs : List (MachRun F))
    (new r : String) : Prop :=
  ∃ g, .change r new g ∈ runs ∧ r ∈ tools.refs g ∧ tools.change r new writable g = none

/-- A reference that does not name the library, names it by `@rpath`, or is one that the tool
would not change. -/
def Relocated (tools : MachTools F) (writable : Bool) (runs : List (MachRun F)) (l r : String) :
    Prop :=
  PlainField r → Names r l →
    r = "@rpath/" ++ l ∨ ChangeRefused tools writable runs ("@rpath/" ++ l) r

section
variable {tools : MachTools F} {writable : Bool} {runs runs' : List (MachRun F)} {f f' : F}
  {l l' r : String}

theorem ChangeRefused.mono {new : String} (h : ChangeRefused tools writable runs new r)
    (hruns : runs ⊆ runs') : ChangeRefused tools writable runs' new r := by
  obtain ⟨g, hrun, hr, hchange⟩ := h
  exact ⟨g, hruns hrun, hr, hchange⟩

theorem Relocated.mono (h : Relocated tools writable runs l r) (hruns : runs ⊆ runs') :
    Relocated tools writable runs' l r :=
  fun hplain hnames => (h hplain hnames).imp_right fun hrefused => hrefused.mono hruns

theorem changed_mem {old new : String}
    (hr : r ∈ tools.refs ((tools.change old new writable f).getD f)) :
    r = new ∨ (r ∈ tools.refs f ∧ (r = old → tools.change r new writable f = none)) := by
  cases hchange : tools.change old new writable f with
  | none =>
    rw [hchange] at hr
    exact .inr ⟨hr, fun he => he ▸ hchange⟩
  | some f' =>
    rw [hchange, Option.getD_some, tools.change_refs hchange] at hr
    obtain ⟨r', hr', rfl⟩ := List.mem_map.1 hr
    split
    next => exact .inl rfl
    next hne => exact .inr ⟨hr', fun he => absurd he hne⟩

theorem changes_mem {olds : List String} {new : String}
    (hr : r ∈ tools.refs (olds.foldl
      (fun f old => (tools.change old new writable f).getD f) f)) :
    r = new ∨ (r ∈ tools.refs f ∧
      (r ∈ olds → ChangeRefused tools writable (tools.changeRuns new writable olds f) new r)) := by
  induction olds generalizing f with
  | nil => exact .inr ⟨hr, fun h => absurd h List.not_mem_nil⟩
  | cons old olds ih =>
    obtain hnew | ⟨hr, hrefused⟩ := ih hr
    · exact .inl hnew
    · obtain hnew | ⟨hr, hfailed⟩ := changed_mem hr
      · exact .inl hnew
      · refine .inr ⟨hr, fun hmem => ?_⟩
        obtain he | hmem := List.mem_cons.1 hmem
        · exact ⟨f, he ▸ List.mem_cons_self .., hr, hfailed he⟩
        · exact (hrefused hmem).mono (List.subset_cons_self ..)

/-- A reference that is left is one that was there before, and does not name the library. -/
theorem relinkTo_mem (h : tools.relinkTo l writable f = some f') (hr : r ∈ tools.refs f') :
    r = "@rpath/" ++ l ∨ (r ∈ tools.refs f ∧ (PlainPattern l →
      Relocated tools writable (tools.relinkToRuns l writable f) l r)) := by
  obtain ⟨lines, hlines, rfl⟩ := Option.map_eq_some_iff.1 h
  have hruns : tools.relinkToRuns l writable f =
      .change l ("@rpath/" ++ l) f ::
        .otool ((tools.change l ("@rpath/" ++ l) writable f).getD f) ::
        tools.changeRuns ("@rpath/" ++ l) writable (lines.filter (tools.grep ("/" ++ l)))
          ((tools.change l ("@rpath/" ++ l) writable f).getD f) := by
    rw [MachTools.relinkToRuns, hlines]
  obtain hnew | ⟨hr, hrefused⟩ := changes_mem hr
  · exact .inl hnew
  · obtain hnew | ⟨hold, hfailed⟩ := changed_mem hr
    · exact .inl hnew
    · refine .inr ⟨hold, fun hl hplain hnames => .inr ?_⟩
      rw [hruns]
      obtain he | hsuffix := hnames
      · exact ⟨f, he ▸ List.mem_cons_self .., hold, hfailed he⟩
      · have hmem : r ∈ lines.filter (tools.grep ("/" ++ l)) := by
          refine List.mem_filter.2 ⟨tools.otool_refs hlines r hr hplain, ?_⟩
          refine tools.grep_literal ?_ hsuffix.isInfix
          intro c hc
          rw [String.toList_append, List.mem_append] at hc
          obtain hc | hc := hc
          · obtain rfl := List.mem_singleton.1 hc
            decide
          · exact hl c hc
        exact (hrefused hmem).mono fun run hrun =>
          List.mem_cons_of_mem _ (List.mem_cons_of_mem _ hrun)

theorem last_part {a b l l' : List Char} (hl : '/' ∉ l) (hl' : '/' ∉ l')
    (h : a ++ '/' :: l = b ++ '/' :: l') : l = l' := by
  obtain ⟨c, _, hc⟩ | ⟨c, _, hc⟩ := List.append_eq_append_iff.1 h
  · cases c with
    | nil => exact (List.cons.inj hc).2
    | cons x c =>
      rw [(List.cons.inj hc).2] at hl
      exact absurd (List.mem_append_right _ (List.mem_cons_self ..)) hl
  · cases c with
    | nil => exact (List.cons.inj hc).2.symm
    | cons x c =>
      rw [(List.cons.inj hc).2] at hl'
      exact absurd (List.mem_append_right _ (List.mem_cons_self ..)) hl'

theorem rpath_relocated (hl : '/' ∉ l.toList) (hl' : '/' ∉ l'.toList) :
    Relocated tools writable runs l ("@rpath/" ++ l') := by
  have hrpath : ("@rpath/" ++ l').toList = "@rpath".toList ++ '/' :: l'.toList := by
    rw [String.toList_append]
    rfl
  rintro _ (rfl | ⟨a, ha⟩)
  · rw [hrpath] at hl
    exact absurd (List.mem_append_right _ (List.mem_cons_self ..)) hl
  · rw [hrpath, String.toList_append] at ha
    rw [String.toList_injective (last_part hl hl' ha)]
    exact .inl rfl

/-- A later library's turn undoes no earlier one's. -/
theorem relink_keeps {plugin : String} {libs : List String}
    (h : tools.relink plugin libs writable f = some f') (hlibs : ∀ l ∈ libs, '/' ∉ l.toList)
    (hl : '/' ∉ l.toList) (hf : ∀ r ∈ tools.refs f, Relocated tools writable runs l r) :
    ∀ r ∈ tools.refs f', Relocated tools writable runs l r := by
  induction libs generalizing f with
  | nil =>
    obtain rfl := Option.some.inj h
    exact hf
  | cons m libs ih =>
    obtain ⟨f₁, hf₁, h⟩ := Option.bind_eq_some_iff.1 h
    replace hf₁ : (if m = plugin then some f else tools.relinkTo m writable f) = some f₁ := hf₁
    obtain ⟨hm, hlibs⟩ := List.forall_mem_cons.1 hlibs
    refine ih h hlibs fun r hr => ?_
    split at hf₁
    · obtain rfl := Option.some.inj hf₁
      exact hf r hr
    · obtain rfl | ⟨hold, _⟩ := relinkTo_mem hf₁ hr
      · exact rpath_relocated hl hm
      · exact hf r hold

theorem relink_relocated {plugin : String} {libs : List String}
    (h : tools.relink plugin libs writable f = some f') (hlibs : ∀ l ∈ libs, '/' ∉ l.toList) :
    ∀ l ∈ libs, l ≠ plugin → PlainPattern l → ∀ r ∈ tools.refs f',
      Relocated tools writable (tools.relinkRuns plugin writable libs f) l r := by
  induction libs generalizing f with
  | nil => exact fun _ hl => absurd hl List.not_mem_nil
  | cons m libs ih =>
    obtain ⟨f₁, hf₁, hrest⟩ := Option.bind_eq_some_iff.1 h
    replace hf₁ : (if m = plugin then some f else tools.relinkTo m writable f) = some f₁ := hf₁
    obtain ⟨hm, hslashes⟩ := List.forall_mem_cons.1 hlibs
    intro l hl hne hplain
    rw [MachTools.relinkRuns]
    by_cases hmp : m = plugin
    · rw [if_pos hmp] at hf₁ ⊢
      obtain rfl := Option.some.inj hf₁
      obtain rfl | hl := List.mem_cons.1 hl
      · exact absurd hmp hne
      · exact ih hrest hslashes l hl hne hplain
    · rw [if_neg hmp] at hf₁ ⊢
      rw [hf₁]
      obtain rfl | hl := List.mem_cons.1 hl
      · refine relink_keeps hrest hslashes hm fun r hr => ?_
        obtain rfl | ⟨_, hturn⟩ := relinkTo_mem hf₁ hr
        · exact rpath_relocated hm hm
        · exact (hturn hplain).mono (List.subset_append_left ..)
      · intro r hr
        exact (ih hrest hslashes l hl hne hplain r hr).mono (List.subset_append_right ..)

theorem no_slash {n : String} (h : globMatch "" n = true) : '/' ∉ n.toList := by
  rw [globMatch, Bool.and_eq_true, Bool.not_eq_true', List.contains_eq_mem] at h
  exact of_decide_eq_false h.2

/-- On Darwin an installed plugin names no library that is shipped with it but by `@rpath`, unless
the tool, run on that plugin for that reference, refused to change it. -/
theorem references_relocated {i : PluginInput} {t : BuildTree F} {out : PluginOutput F}
    (h : i.installPhase tools t = some out) (hdarwin : i.isDarwin = true) {plugin l : String}
    (hplugin : globMatch "_plugin.dylib" plugin = true)
    (hfile : out.lib.lookup plugin = some (.file writable f'))
    (hl : globMatch ".dylib" l = true) (hshipped : l ∈ out.lib) (hne : l ≠ plugin)
    (hplain : PlainPattern l) :
    ∃ lib f, i.copyLibraries t = some lib ∧ lib.lookup plugin = some (.file writable f) ∧
      ∀ r ∈ tools.refs f',
        Relocated tools writable (i.relinkRuns tools lib plugin writable f) l r := by
  obtain ⟨lib, hlib, hfixed, _⟩ := installPhase_split h
  rw [PluginInput.fixLibraryPaths, if_pos hdarwin] at hfixed
  obtain ⟨first, hfirst, hfixed⟩ := Option.bind_eq_some_iff.1 hfixed
  obtain ⟨second, hsecond, hfixed⟩ := Option.bind_eq_some_iff.1 hfixed
  have hretouched := fixReferences_retouched hfixed
  have hlibs : l ∈ (tools.fixIds second).expand (hasSuffix ".dylib") :=
    mem_expand.2 ⟨(hretouched.names l).1 hshipped, globMatch_iff.1 hl⟩
  have hold : (tools.fixIds second).isFile plugin = true := by
    rw [← hretouched.files, BuildDir.isFile, hfile]
    rfl
  have hmem : plugin ∈ ((tools.fixIds second).expand (hasSuffix "_plugin.dylib")).filter
      (tools.fixIds second).isFile :=
    List.mem_filter.2 ⟨mem_expand.2 ⟨mem_of_isFile hold, globMatch_iff.1 hplugin⟩, hold⟩
  obtain ⟨e, htool, he⟩ := (Dir.lookup_each ((expand_nodup _ _).filter _) hfixed).1 plugin hmem
  obtain ⟨mode, f₀, f₁, hbefore, hrelink, rfl⟩ := onFile_eq_some.1 htool
  obtain ⟨rfl, rfl⟩ := Entry.file.inj (Option.some.inj (he.symm.trans hfile))
  obtain ⟨f, hf, rfl⟩ := (identified_file hfirst hsecond hplugin).1 hbefore
  rw [identified_expand hfirst hsecond] at hrelink hlibs
  have hslash : ∀ m ∈ lib.expand (hasSuffix ".dylib"), '/' ∉ m.toList :=
    fun m hm => no_slash (mem_expand.1 hm).2.1
  exact ⟨lib, f, hlib, hf, relink_relocated hrelink hslash l hlibs hne hplain⟩

end

/-- No tool refuses here, so no other reference is left. -/
theorem references_relocated_calc : ∃ out f',
    calcPlugin.installPhase plainTools calcTree = some out ∧
    out.lib.lookup "demo_plugin.dylib" = some (.file true f') ∧
    ∀ r ∈ plainTools.refs f', PlainField r → Names r "libcalc.dylib" →
      r = "@rpath/libcalc.dylib" := by
  obtain ⟨out, hout, hfile, hshipped⟩ := calc_installed
  have hplugin : globMatch "_plugin.dylib" "demo_plugin.dylib" = true := by decide +kernel
  have hl : globMatch ".dylib" "libcalc.dylib" = true := by decide +kernel
  have hplain : PlainPattern "libcalc.dylib" := by
    have hall : ("libcalc.dylib".toList.all fun c => !"[\\*^$".toList.contains c) = true := by
      decide +kernel
    intro c hc
    have hnot := List.all_eq_true.1 hall c hc
    rw [Bool.not_eq_true', List.contains_eq_mem] at hnot
    exact of_decide_eq_false hnot
  obtain ⟨lib, f, _, _, hrelocated⟩ :=
    references_relocated hout rfl hplugin hfile hl hshipped (by decide) hplain
  refine ⟨out, _, hout, hfile, fun r hr hr' hnames => ?_⟩
  obtain hrpath | ⟨g, _, _, hrefused⟩ := hrelocated r hr hr' hnames
  · exact hrpath
  · cases hrefused

end LogosPluginQt
