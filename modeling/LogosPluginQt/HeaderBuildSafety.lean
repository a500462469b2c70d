import LogosPluginQt.HeaderBuild

namespace LogosPluginQt
open ShellScript HeadersInput
set_option autoImplicit true

section
variable {tool : HeadersCall → HeadersTree → Nat → HeadersTree → Prop} {s s' : HeadersTree}
  {call : HeadersCall} {o : Option Nat}

def WrapperPair (dir : Listing) : Prop :=
  (∃ entry ∈ dir, globMatch "_api.h" entry.1 = true) ∧
    ∃ entry ∈ dir, globMatch "_api.cpp" entry.1 = true

/-- How the guard comes out, by what the generator does; `none` is the zero exit. -/
inductive GuardOutcome (tool : HeadersCall → HeadersTree → Nat → HeadersTree → Prop)
    (call : HeadersCall) (s : HeadersTree) : Option Nat → HeadersTree → Prop where
  | failed {status : Nat} {s' : HeadersTree} : tool call s status s' → status ≠ 0 →
      GuardOutcome tool call s (some status) s'
  | empty {s' : HeadersTree} : tool call s 0 s' → ¬ WrapperPair (s' call.outputDir) →
      GuardOutcome tool call s (some 1) s'
  | wrapped {s' : HeadersTree} : tool call s 0 s' → WrapperPair (s' call.outputDir) →
      GuardOutcome tool call s none s'

theorem wrapperPair_iff {dir : Listing} :
    (dir.any (fun entry => globMatch "_api.h" entry.1) &&
      dir.any fun entry => globMatch "_api.cpp" entry.1) = true ↔ WrapperPair dir := by
  rw [Bool.and_eq_true, List.any_eq_true, List.any_eq_true]
  rfl

theorem runGuarded_iff {onPath : Bool} {plugin dir style sidecar : String} :
    Exec tool s (runGuarded onPath plugin dir style sidecar) o s' ↔
      (onPath = false ∧ o = some 1 ∧ s' = s) ∨ (onPath = true ∧ GuardOutcome tool
        (.module plugin dir style (if sidecar = "" then none else some sidecar)) s o s') := by
  rw [runGuarded, exec_seq_iff]
  constructor
  · rintro (⟨m, hpath, hrest⟩ | ⟨status, rfl, hpath⟩)
    · obtain ⟨rfl, ⟨honPath, _⟩ | ⟨_, ho⟩⟩ := Script.exec_require_iff.1 hpath
      · refine .inr ⟨honPath, ?_⟩
        obtain ⟨m, hrun, hcheck⟩ | ⟨status, rfl, hrun⟩ := exec_seq_iff.1 hrest
        · obtain ⟨_, htool⟩ | ⟨_, _, ho, _⟩ := exec_run_iff.1 hrun
          · obtain ⟨rfl, ⟨hpair, rfl⟩ | ⟨hpair, rfl⟩⟩ := Script.exec_require_iff.1 hcheck
            · exact .wrapped htool (wrapperPair_iff.1 hpair)
            · refine .empty htool fun h => ?_
              exact absurd (hpair.symm.trans (wrapperPair_iff.2 h)) Bool.false_ne_true
          · cases ho
        · obtain ⟨ho, _⟩ | ⟨_, hne, ho, htool⟩ := exec_run_iff.1 hrun
          · cases ho
          · cases ho
            exact .failed htool hne
      · cases ho
    · obtain ⟨rfl, ⟨_, ho⟩ | ⟨honPath, ho⟩⟩ := Script.exec_require_iff.1 hpath
      · cases ho
      · exact .inl ⟨honPath, ho, rfl⟩
  · rintro (⟨hpath, rfl, rfl⟩ | ⟨hpath, hout⟩)
    · exact .inr ⟨1, rfl, .no hpath (.exit ..)⟩
    · refine .inl ⟨s, .yes hpath (.skip s), ?_⟩
      cases hout with
      | failed htool hne => exact .stop (.fail htool hne)
      | empty htool hpair =>
        refine .seq (.run htool) (.no ?_ (.exit ..))
        exact eq_false_of_ne_true fun h => hpair (wrapperPair_iff.1 h)
      | wrapped htool hpair => exact .seq (.run htool) (.yes (wrapperPair_iff.2 hpair) (.skip _))

def guardedCall : List String → Option HeadersCall
  | [plugin, dir, style] => some (.module plugin dir style none)
  | [plugin, dir, style, sidecar] =>
    some (.module plugin dir style (if sidecar = "" then none else some sidecar))
  | _ => none

/-- Exactly how the guard comes out, for every list of arguments and whatever the generator does:
its own status where it fails, and a zero exit only where the wrapper is in the output directory
by then. -/
theorem guard_outcome (tool : HeadersCall → HeadersTree → Nat → HeadersTree → Prop)
    (onPath : Bool) (args : List String) (s s' : HeadersTree) (o : Option Nat) :
    Exec tool s (generateModuleHeaders onPath args) o s' ↔
      match guardedCall args with
      | none => o = some 64 ∧ s' = s
      | some call =>
        (onPath = false ∧ o = some 1 ∧ s' = s) ∨
          (onPath = true ∧ GuardOutcome tool call s o s') := by
  match args with
  | [plugin, dir, style] => exact runGuarded_iff
  | [plugin, dir, style, sidecar] => exact runGuarded_iff
  | [] | [_] | [_, _] | _ :: _ :: _ :: _ :: _ :: _ => exact exec_exit_iff

end

section
variable {gens : HeadersGenerators} {i : HeadersInput} {s s' s₀ : HeadersTree} {call : HeadersCall}
  {dir : Listing} {n : String} {f : BuiltFile}

/-! Looking up the files of a directory. -/

theorem lookup_mem (h : dir.lookup n = some f) : (n, f) ∈ dir := by
  obtain ⟨entry, hentry, rfl⟩ := Option.map_eq_some_iff.1 h
  have hname := List.find?_some hentry
  rw [beq_iff_eq] at hname
  rw [← hname]
  exact List.mem_of_find?_eq_some hentry

theorem lookup_filter {keep : String × BuiltFile → Bool} (h : ∀ f, keep (n, f) = true) :
    Listing.lookup (dir.filter keep) n = dir.lookup n := by
  unfold Listing.lookup
  rw [List.find?_filter]
  have hpred : (fun entry : String × BuiltFile =>
      decide (keep entry = true ∧ (entry.1 == n) = true)) = fun entry => entry.1 == n := by
    funext entry
    rw [Bool.eq_iff_iff, decide_eq_true_iff]
    refine ⟨And.right, fun hn => ⟨?_, hn⟩⟩
    obtain ⟨n', f'⟩ := entry
    obtain rfl : n' = n := eq_of_beq hn
    exact h f'
  rw [hpred]

theorem installed_header (i : HeadersInput) (f : BuiltFile) : installed (i.header, f) = true := by
  have h : hasSuffix "_api.h" i.header = true := hasSuffix_append ..
  rw [installed, hasSuffix_trans (by decide) h, Bool.true_or]

theorem installed_source (i : HeadersInput) (f : BuiltFile) : installed (i.source, f) = true := by
  have h : hasSuffix "_api.cpp" i.source = true := hasSuffix_append ..
  have hcpp : hasSuffix ".cpp" i.source = true := hasSuffix_trans (by decide) h
  exact Bool.or_eq_true_iff.2 (.inr hcpp)

theorem WrapperPair.filtered (h : WrapperPair dir) : WrapperPair (dir.filter installed) := by
  have hsuffix {suffix n : String} (hn : globMatch suffix n = true) :
      hasSuffix suffix n = true := by
    rw [globMatch, Bool.and_eq_true, Bool.and_eq_true] at hn
    exact hn.1.1
  obtain ⟨⟨header, hmem, hglob⟩, source, hmem', hglob'⟩ := h
  have hheader : hasSuffix ".h" header.1 = true := hasSuffix_trans (by decide) (hsuffix hglob)
  have hsource : hasSuffix ".cpp" source.1 = true := hasSuffix_trans (by decide) (hsuffix hglob')
  exact ⟨⟨header, List.mem_filter.2 ⟨hmem, Bool.or_eq_true_iff.2 (.inl hheader)⟩, hglob⟩, source,
    List.mem_filter.2 ⟨hmem', Bool.or_eq_true_iff.2 (.inr hsource)⟩, hglob'⟩

def HeadersInput.Wrapped (i : HeadersInput) (dir : Listing) : Prop :=
  if i.useQtConsumer then
    (∃ f, dir.lookup i.header = some f ∧ f.text ≠ "" ∧ namesLpBridge f.text = true) ∧
      ∃ f, dir.lookup i.source = some f ∧ f.text ≠ ""
  else if i.isWindows then i.contractIsLidl = true ∧ ∃ f, dir.lookup i.header = some f
  else WrapperPair dir

theorem HeadersInput.Wrapped.filtered (h : i.Wrapped dir) : i.Wrapped (dir.filter installed) := by
  have hheader : Listing.lookup (dir.filter installed) i.header = dir.lookup i.header :=
    lookup_filter (installed_header i)
  have hsource : Listing.lookup (dir.filter installed) i.source = dir.lookup i.source :=
    lookup_filter (installed_source i)
  unfold HeadersInput.Wrapped at *
  rw [hheader, hsource]
  by_cases hqt : i.useQtConsumer = true
  · rw [if_pos hqt] at *
    exact h
  · by_cases hcross : i.isWindows = true
    · rw [if_neg hqt, if_pos hcross] at *
      exact h
    · rw [if_neg hqt, if_neg hcross] at *
      exact h.filtered

theorem HeadersInput.Wrapped.nonempty (h : i.Wrapped dir) : dir ≠ [] := by
  rintro rfl
  unfold HeadersInput.Wrapped at h
  split at h
  · obtain ⟨⟨_, hf, _⟩, _⟩ := h
    cases hf
  · split at h
    · obtain ⟨_, _, hf⟩ := h
      cases hf
    · obtain ⟨⟨_, hmem, _⟩, _⟩ := h
      cases hmem

structure Building (i : HeadersInput) (s₀ s : HeadersTree) : Prop where
  out : s outInclude = s₀ outInclude
  origin : ∀ entry ∈ s generatedHeaders,
    entry ∈ s₀ generatedHeaders ∨ entry.2.author ∈ i.nativeBuildInputs

theorem Building.ran {status : Nat} (h : Building i s₀ s)
    (hdir : call.outputDir = generatedHeaders)
    (hrun : gens.runIn i.nativeBuildInputs call s status s') : Building i s₀ s' := by
  unfold HeadersGenerators.runIn at hrun
  by_cases hprogram : call.program ∈ i.nativeBuildInputs
  · rw [if_pos hprogram] at hrun
    constructor
    · have hne : outInclude ≠ call.outputDir := by
        rw [hdir]
        decide
      rw [gens.frame hrun _ hne]
      exact h.out
    · intro entry hentry
      rw [← hdir] at hentry
      obtain hold | hnew := gens.authored hrun entry hentry
      · rw [hdir] at hold
        exact h.origin entry hold
      · rw [hnew]
        exact .inr hprogram
  · rw [if_neg hprogram] at hrun
    obtain ⟨_, rfl⟩ := hrun
    exact h

theorem Building.removed {keep : String × BuiltFile → Bool} (h : Building i s₀ s) :
    Building i s₀ (Function.update s generatedHeaders ((s generatedHeaders).filter keep)) := by
  constructor
  · rw [Function.update_of_ne (by decide)]
    exact h.out
  · intro entry hentry
    rw [Function.update_self] at hentry
    exact h.origin entry (List.mem_filter.1 hentry).1

/-- How a part of the build comes out: done with `Q`, or with a status, and nothing installed. -/
def Builds (gens : HeadersGenerators) (i : HeadersInput) (s₀ : HeadersTree)
    (P : Listing → Prop) (script : HeadersScript) (Q : Listing → Prop) : Prop :=
  Triple (gens.runIn i.nativeBuildInputs) (fun s => Building i s₀ s ∧ P (s generatedHeaders)) script
    (fun s => Building i s₀ s ∧ Q (s generatedHeaders))
    fun status s => status ≠ 0 ∧ Building i s₀ s

namespace Builds
variable {P Q R : Listing → Prop} {a b : HeadersScript}

theorem run (hdir : call.outputDir = generatedHeaders) :
    Builds gens i s₀ P (.run call) fun _ => True :=
  Triple.run (fun _ _ hs hrun => ⟨hs.1.ran hdir hrun, trivial⟩)
    fun _ _ _ hs hrun hne => ⟨hne, hs.1.ran hdir hrun⟩

theorem exit {status : Nat} (hne : status ≠ 0) : Builds gens i s₀ P (.exit status) Q :=
  Triple.exit fun _ hs => ⟨hne, hs.1⟩

theorem require (test : Listing → Bool) (h : ∀ dir, P dir → test dir = true → Q dir) :
    Builds gens i s₀ P (.require (fun s => test (s generatedHeaders)) 1) Q :=
  Triple.require (fun _ hs ht => ⟨hs.1, h _ hs.2 ht⟩) fun _ hs _ => ⟨Nat.one_ne_zero, hs.1⟩

theorem seq (ha : Builds gens i s₀ P a R) (hb : Builds gens i s₀ R b Q) :
    Builds gens i s₀ P (.seq a b) Q := Triple.seq ha hb

theorem ite {test : HeadersTree → Bool} (ha : Builds gens i s₀ P a Q)
    (hb : Builds gens i s₀ P b Q) : Builds gens i s₀ P (.ite test a b) Q :=
  Triple.ite (ha.conseq (fun _ => And.left) (fun _ => id) fun _ _ => id)
    (hb.conseq (fun _ => And.left) (fun _ => id) fun _ _ => id)

end Builds

theorem hasText_iff : dir.hasText n = true ↔ ∃ f, dir.lookup n = some f ∧ f.text ≠ "" := by
  simp only [Listing.hasText, Option.any_eq_true, bne_iff_ne]

theorem qtConsumer_builds (hqt : i.useQtConsumer = true) (contract : String) :
    Builds gens i s₀ (fun _ => True) (i.qtConsumerBuildPhase contract) i.Wrapped := by
  let texts (dir : Listing) : Bool := dir.hasText i.header && dir.hasText i.source
  let bridge (dir : Listing) : Bool := (dir.lookup i.header).any fun f => namesLpBridge f.text
  refine .seq (.run rfl) (.seq (R := fun dir => texts dir = true) (.require texts fun _ _ => id)
    (.require bridge fun dir htexts hbridge => ?_))
  obtain ⟨hheader, hsource⟩ := Bool.and_eq_true_iff.1 htexts
  obtain ⟨f, hf, htext⟩ := hasText_iff.1 hheader
  have hnamed : namesLpBridge f.text = true := by
    simp only [bridge, hf, Option.any_some] at hbridge
    exact hbridge
  unfold HeadersInput.Wrapped
  rw [if_pos hqt]
  exact ⟨⟨f, hf, htext, hnamed⟩, hasText_iff.1 hsource⟩

theorem cross_builds (hqt : i.useQtConsumer = false) (hcross : i.isWindows = true) :
    Builds gens i s₀ (fun _ => True) i.crossBuildPhase i.Wrapped := by
  unfold HeadersInput.crossBuildPhase
  cases hcontract : i.contractLidl with
  | none => exact .exit Nat.one_ne_zero
  | some contract =>
    cases hlidl : i.contractIsLidl with
    | false => exact .exit Nat.one_ne_zero
    | true =>
      refine .seq (.run rfl) (.seq (R := fun _ => True) ?_ (.require (fun dir => dir.has i.header)
        fun dir _ hheader => ?_))
      · refine Triple.edit ?_ fun _ _ h => absurd h nofun
        rintro s _ hs ⟨⟩
        exact ⟨hs.1.removed, trivial⟩
      · unfold HeadersInput.Wrapped
        rw [if_neg (Bool.eq_false_iff.1 hqt), if_pos hcross]
        exact ⟨hlidl, Option.isSome_iff_exists.1 hheader⟩

theorem guard_builds (hqt : i.useQtConsumer = false) (hcross : i.isWindows = false)
    {onPath : Bool} {plugin style sidecar : String} :
    Builds gens i s₀ (fun _ => True)
      (generateModuleHeaders onPath [plugin, generatedHeaders, style, sidecar]) i.Wrapped := by
  let pair (dir : Listing) : Bool := dir.any (fun entry => globMatch "_api.h" entry.1) &&
    dir.any fun entry => globMatch "_api.cpp" entry.1
  refine .seq (R := fun _ => True) ?_ (.seq (.run rfl) (.require pair fun dir _ hpair => ?_))
  · exact Triple.require (fun _ hs _ => hs) fun _ hs _ => ⟨Nat.one_ne_zero, hs.1⟩
  · unfold HeadersInput.Wrapped
    rw [if_neg (Bool.eq_false_iff.1 hqt), if_neg (Bool.eq_false_iff.1 hcross)]
    exact wrapperPair_iff.1 hpair

theorem native_builds (hqt : i.useQtConsumer = false) (hcross : i.isWindows = false) :
    Builds gens i s₀ (fun _ => True) i.nativeLegacyBuildPhase i.Wrapped := by
  have hintrospect (plugin : String) :
      Builds gens i s₀ (fun _ => True) (i.introspect plugin) i.Wrapped :=
    .ite (guard_builds hqt hcross) (guard_builds hqt hcross)
  exact .ite (hintrospect _) (.ite (hintrospect _) (.exit Nat.one_ne_zero))

theorem buildPhase_builds : Builds gens i s₀ (fun _ => True) i.buildPhase i.Wrapped := by
  unfold HeadersInput.buildPhase
  cases hqt : i.useQtConsumer with
  | true => exact qtConsumer_builds hqt _
  | false =>
    cases hcross : i.isWindows with
    | true => exact cross_builds hqt hcross
    | false => exact native_builds hqt hcross

theorem build_installs : Triple (gens.runIn i.nativeBuildInputs)
    (fun s => Building i s₀ s ∧ True) i.build
    (fun s => i.Wrapped (s outInclude) ∧ ∀ entry ∈ s outInclude,
      entry ∈ s₀ generatedHeaders ∨ entry.2.author ∈ i.nativeBuildInputs)
    fun status s => status ≠ 0 ∧ Building i s₀ s := by
  apply Triple.seq buildPhase_builds
  apply Triple.seq (R := fun s => Building i s₀ s ∧ i.Wrapped (s generatedHeaders))
  · exact .require (fun _ hs _ => hs) fun _ hs _ => ⟨Nat.one_ne_zero, hs.1⟩
  · refine .edit ?_ fun _ _ h => absurd h nofun
    rintro s _ ⟨hs, hwrapped⟩ ⟨⟩
    rw [Function.update_self]
    exact ⟨hwrapped.filtered, fun entry hentry => hs.origin entry (List.mem_filter.1 hentry).1⟩

end

/-- A headers derivation that ends well has installed the wrapper it owes, and only files that lay
among the generated ones or that the program chosen for it wrote; one that fails has installed
nothing. Whatever the generators do. -/
theorem headers_installed (gens : HeadersGenerators) (i : HeadersInput) (s s' : HeadersTree)
    (o : Option Nat) (hrun : Exec (gens.runIn i.nativeBuildInputs) s i.build o s') :
    match o with
    | none => i.Wrapped (s' outInclude) ∧ s' outInclude ≠ [] ∧ ∀ entry ∈ s' outInclude,
        entry ∈ s generatedHeaders ∨ entry.2.author ∈ i.nativeBuildInputs
    | some status => status ≠ 0 ∧ s' outInclude = s outInclude := by
  have hstart : Building i s s := ⟨rfl, fun _ => .inl⟩
  obtain ⟨hdone, hfailed⟩ := build_installs s o s' ⟨hstart, trivial⟩ hrun
  cases o with
  | none =>
    obtain ⟨hwrapped, horigin⟩ := hdone rfl
    exact ⟨hwrapped, hwrapped.nonempty, horigin⟩
  | some status =>
    obtain ⟨hne, hs⟩ := hfailed status rfl
    exact ⟨hne, hs.out⟩

/-! With generators that write what they are called for. -/

section
variable {i : HeadersInput} {s : HeadersTree} {call : HeadersCall} {author : Author}
  {name text : String} {dir : Listing}

theorem lookup_header : (wrapperInto author name text dir).lookup (name ++ "_api.h") =
    some ⟨author, text⟩ := Listing.lookup_cons_self

theorem lookup_source : (wrapperInto author name text dir).lookup (name ++ "_api.cpp") =
    some ⟨author, text⟩ := by
  have hne : name ++ "_api.h" ≠ name ++ "_api.cpp" := by
    intro h
    have htail := List.append_cancel_left
      ((String.toList_append.symm.trans (congrArg String.toList h)).trans String.toList_append)
    exact absurd htail (by decide)
  exact (Listing.lookup_cons_of_ne hne).trans Listing.lookup_cons_self

def written (author : Author) (name text : String) (s : HeadersTree) : HeadersTree :=
  Function.update s generatedHeaders (wrapperInto author name text (s generatedHeaders))

theorem runs_writing (hcall : call.program ∈ i.nativeBuildInputs)
    (hdir : call.outputDir = generatedHeaders) :
    Exec ((HeadersGenerators.writing name text).runIn i.nativeBuildInputs) s (.run call) none
      (written call.program name text s) := by
  apply Exec.run
  rw [HeadersGenerators.runIn, if_pos hcall]
  refine ⟨rfl, ?_⟩
  rw [hdir]
  rfl

theorem installPhase_ends {tool : HeadersCall → HeadersTree → Nat → HeadersTree → Prop}
    {f : BuiltFile} {n : String} (hmem : (n, f) ∈ s generatedHeaders)
    (hn : hasSuffix ".h" n = true) : ∃ s', Exec tool s installPhase none s' := by
  refine ⟨_, .seq (.yes ?_ (.skip s)) (.edit rfl)⟩
  exact List.any_eq_true.2 ⟨(n, f), hmem, Bool.or_eq_true_iff.2 (.inl hn)⟩

theorem header_mem : (name ++ "_api.h", (⟨author, text⟩ : BuiltFile)) ∈
    written author name text s generatedHeaders := by
  rw [written, Function.update_self]
  exact List.mem_cons_self ..

theorem qtConsumer_ends (hqt : i.useQtConsumer = true) (contract : String) :
    Exec ((HeadersGenerators.writing i.name "logos::qt::LpBridge").runIn i.nativeBuildInputs) s
      (i.qtConsumerBuildPhase contract) none
      (written .qtGenerator i.name "logos::qt::LpBridge" s) := by
  refine .seq (runs_writing ?_ rfl) (.seq (.yes ?_ (.skip _)) (.yes ?_ (.skip _)))
  · rw [HeadersInput.nativeBuildInputs, if_pos hqt]
    exact List.mem_cons_self ..
  · rw [written, Function.update_self, Listing.hasText, Listing.hasText, HeadersInput.header,
      HeadersInput.source, lookup_header, lookup_source]
    rfl
  · rw [HeadersCall.program, written, Function.update_self, HeadersInput.header, lookup_header]
    decide

theorem cross_ends (text : String) (hqt : i.useQtConsumer = false)
    (hlidl : i.contractIsLidl = true) :
    ∃ s', Exec ((HeadersGenerators.writing i.name text).runIn i.nativeBuildInputs) s
      i.crossBuildPhase none s' ∧ ∃ f, (i.header, f) ∈ s' generatedHeaders := by
  have hkept : i.header ∉ umbrellaFiles :=
    @apiFiles_ne_umbrella i.name _ (List.mem_cons_self ..)
  let keep (entry : String × BuiltFile) : Bool := !umbrellaFiles.contains entry.1
  have hkeep (f : BuiltFile) : keep (i.header, f) = true := by
    rw [Bool.not_eq_true', List.contains_eq_mem, decide_eq_false_iff_not]
    exact hkept
  let dir := wrapperInto .cppGenerator i.name text (s generatedHeaders)
  have hlookup : Listing.lookup (dir.filter keep) i.header = some ⟨.cppGenerator, text⟩ :=
    (lookup_filter hkeep).trans lookup_header
  let s' := Function.update (written .cppGenerator i.name text s) generatedHeaders (dir.filter keep)
  have hdir : s' generatedHeaders = dir.filter keep := Function.update_self ..
  refine ⟨s', ?_, ⟨.cppGenerator, text⟩, ?_⟩
  · obtain ⟨contract, hcontract⟩ : ∃ contract, i.contractLidl = some contract := by
      cases hcontract : i.contractLidl with
      | none =>
        rw [HeadersInput.contractIsLidl, hcontract] at hlidl
        cases hlidl
      | some contract => exact ⟨contract, rfl⟩
    unfold HeadersInput.crossBuildPhase
    rw [hcontract, hlidl]
    refine .seq (runs_writing ?_ rfl) (.seq (.edit ?_) (.yes ?_ (.skip _)))
    · rw [HeadersInput.nativeBuildInputs, hqt]
      exact List.mem_cons_self ..
    · rw [HeadersCall.program, written, Function.update_self]
      rfl
    · rw [hdir, Listing.has, hlookup]
      rfl
  · rw [hdir]
    exact lookup_mem hlookup

theorem guard_ends (hqt : i.useQtConsumer = false) {plugin style sidecar : String} :
    Exec ((HeadersGenerators.writing "m" text).runIn i.nativeBuildInputs) s
      (generateModuleHeaders true [plugin, generatedHeaders, style, sidecar]) none
      (written .cppGenerator "m" text s) := by
  refine .seq (.yes rfl (.skip _)) (.seq (runs_writing ?_ rfl) (.yes ?_ (.skip _)))
  · rw [HeadersInput.nativeBuildInputs, hqt]
    exact List.mem_cons_self ..
  · rw [wrapperPair_iff]
    have hdir : written .cppGenerator "m" text s generatedHeaders =
      wrapperInto .cppGenerator "m" text (s generatedHeaders) := Function.update_self ..
    rw [HeadersCall.program, hdir]
    refine ⟨⟨_, List.mem_cons_self .., ?_⟩, _, List.mem_cons_of_mem _ (List.mem_cons_self ..), ?_⟩
    · exact (by decide : globMatch "_api.h" "m_api.h" = true)
    · exact (by decide : globMatch "_api.cpp" "m_api.cpp" = true)

theorem native_ends (text : String) (hqt : i.useQtConsumer = false) : ∃ s s',
    Exec ((HeadersGenerators.writing "m" text).runIn i.nativeBuildInputs) s
      i.nativeLegacyBuildPhase none s' ∧ ∃ f, ("m_api.h", f) ∈ s' generatedHeaders := by
  let built : HeadersTree := fun _ => [(i.name ++ "_plugin.dylib", ⟨.module, ""⟩)]
  have hfound : (built (i.lib ++ "/lib")).has (i.name ++ "_plugin.dylib") = true := by
    rw [Listing.has, Listing.lookup_cons_self]
    rfl
  have hpath : i.nativeBuildInputs.contains .cppGenerator = true := by
    rw [HeadersInput.nativeBuildInputs, hqt]
    rfl
  refine ⟨built, written .cppGenerator "m" text built, .yes hfound ?_, _, header_mem⟩
  unfold HeadersInput.introspect
  rw [hpath]
  cases hsidecar : (built (i.lib ++ "/share/logos")).has (i.name ++ ".lidl") with
  | true => exact .yes hsidecar (guard_ends hqt)
  | false => exact .no hsidecar (guard_ends hqt)

end

/-- A headers derivation can be built, except across platforms without a contract. -/
theorem headers_buildable_iff (i : HeadersInput) :
    (∃ (gens : HeadersGenerators) (s s' : HeadersTree),
      Exec (gens.runIn i.nativeBuildInputs) s i.build none s') ↔
    (i.isWindows = true → i.contractIsLidl = true) := by
  constructor
  · rintro ⟨gens, s, s', hrun⟩ hcross
    have hstart : Building i s s := ⟨rfl, fun _ => .inl⟩
    have hwrapped := ((build_installs s none s' ⟨hstart, trivial⟩ hrun).1 rfl).1
    unfold HeadersInput.Wrapped at hwrapped
    cases hqt : i.useQtConsumer with
    | true =>
      rw [HeadersInput.useQtConsumer, Bool.and_eq_true, Bool.and_eq_true] at hqt
      exact hqt.1.2
    | false =>
      rw [hqt, hcross] at hwrapped
      exact hwrapped.1
  · intro hcontract
    have hbuild {gens : HeadersGenerators} {s s₁ : HeadersTree} {n : String} {f : BuiltFile}
        (hphase : Exec (gens.runIn i.nativeBuildInputs) s i.buildPhase none s₁)
        (hmem : (n, f) ∈ s₁ generatedHeaders) (hn : hasSuffix ".h" n = true) :
        ∃ (gens : HeadersGenerators) (s s' : HeadersTree),
          Exec (gens.runIn i.nativeBuildInputs) s i.build none s' := by
      obtain ⟨s', hinstall⟩ := installPhase_ends hmem hn
      exact ⟨gens, s, s', .seq hphase hinstall⟩
    have hheader : hasSuffix ".h" i.header = true :=
      hasSuffix_trans (by decide) (hasSuffix_append i.name "_api.h")
    unfold HeadersInput.buildPhase at hbuild
    cases hqt : i.useQtConsumer with
    | true =>
      rw [hqt] at hbuild
      exact hbuild (qtConsumer_ends (s := fun _ => []) hqt _) header_mem hheader
    | false =>
      cases hcross : i.isWindows with
      | true =>
        rw [hqt, hcross] at hbuild
        obtain ⟨s', hphase, f, hmem⟩ := cross_ends "" (s := fun _ => []) hqt (hcontract hcross)
        exact hbuild hphase hmem hheader
      | false =>
        rw [hqt, hcross] at hbuild
        obtain ⟨s, s', hphase, f, hmem⟩ := native_ends "" hqt
        exact hbuild hphase hmem (by decide)

def contractHeaders : HeadersInput :=
  ⟨"demo_module", "0.1.0", "qt", some "demo_module.lidl", true, true, "demo_module-lib"⟩

theorem headers_installed_contract : ∃ s' : HeadersTree,
    contractHeaders.Wrapped (s' outInclude) ∧ s' outInclude ≠ [] ∧
      ∀ entry ∈ s' outInclude, entry ∈ [] ∨ entry.2.author ∈ contractHeaders.nativeBuildInputs := by
  have hphase : Exec _ (fun _ => []) contractHeaders.buildPhase none _ :=
    qtConsumer_ends (i := contractHeaders) rfl "demo_module.lidl"
  obtain ⟨s', hinstall⟩ := installPhase_ends header_mem (hasSuffix_trans (by decide)
    (hasSuffix_append "demo_module" "_api.h"))
  exact ⟨s', headers_installed _ contractHeaders _ s' none (.seq hphase hinstall)⟩

/-! Which generator is called, and what for. -/

section
variable {i : HeadersInput} {call : HeadersCall}

theorem emitter_qtConsumer : i.emitter = .qtConsumer ↔ i.useQtConsumer = true := by
  unfold HeadersInput.emitter
  cases hqt : i.useQtConsumer with
  | true => exact iff_of_true rfl rfl
  | false => cases i.isQt <;> cases i.contractIsLidl <;> simp

theorem useQtConsumer_apiStyle (hqt : i.useQtConsumer = true) : i.apiStyle = "qt" := by
  rw [HeadersInput.useQtConsumer, Bool.and_eq_true, Bool.and_eq_true] at hqt
  exact eq_of_beq hqt.1.1

theorem contractIsLidl_iff : i.contractIsLidl = true ↔
    ∃ contract, i.contractLidl = some contract ∧ hasSuffix ".lidl" contract = true := by
  rw [HeadersInput.contractIsLidl]
  cases i.contractLidl with
  | none => exact iff_of_false nofun nofun
  | some contract => exact ⟨fun h => ⟨contract, rfl, h⟩, fun ⟨_, rfl, h⟩ => h⟩

inductive Calls (i : HeadersInput) : HeadersCall → Prop where
  | consumer {contract : String} : i.useQtConsumer = true → i.contractLidl = some contract →
      hasSuffix ".lidl" contract = true → Calls i (.consumer contract i.name generatedHeaders)
  | dep {contract : String} : i.useQtConsumer = false → i.isWindows = true →
      i.contractLidl = some contract → hasSuffix ".lidl" contract = true →
      Calls i (.dep i.name i.version generatedHeaders i.apiStyle contract)
  | module {plugin : String} {events : Option String} : i.useQtConsumer = false →
      i.isWindows = false → Calls i (.module plugin generatedHeaders i.apiStyle events)

theorem guard_uses {onPath : Bool} {plugin style sidecar : String}
    (huse : (generateModuleHeaders onPath [plugin, generatedHeaders, style, sidecar]).Uses call) :
    ∃ events, call = .module plugin generatedHeaders style events := by
  obtain h | h | h := huse
  · exact absurd h Script.not_uses_require
  · exact ⟨_, h⟩
  · exact absurd h Script.not_uses_require

theorem build_calls (huse : i.build.Uses call) : Calls i call := by
  obtain huse | huse | huse := huse
  · unfold HeadersInput.buildPhase at huse
    cases hqt : i.useQtConsumer with
    | true =>
      rw [hqt] at huse
      have hlidl : i.contractIsLidl = true := by
        rw [HeadersInput.useQtConsumer, Bool.and_eq_true, Bool.and_eq_true] at hqt
        exact hqt.1.2
      obtain ⟨contract, hcontract, hsuffix⟩ := contractIsLidl_iff.1 hlidl
      rw [hcontract] at huse
      obtain rfl | huse | huse := huse
      · exact .consumer hqt hcontract hsuffix
      · exact absurd huse Script.not_uses_require
      · exact absurd huse Script.not_uses_require
    | false =>
      rw [hqt] at huse
      cases hcross : i.isWindows with
      | true =>
        rw [hcross] at huse
        unfold HeadersInput.crossBuildPhase at huse
        cases hlidl : i.contractIsLidl with
        | false =>
          rw [hlidl] at huse
          cases hcontract : i.contractLidl with
          | none =>
            rw [hcontract] at huse
            cases huse
          | some contract =>
            rw [hcontract] at huse
            cases huse
        | true =>
          obtain ⟨contract, hcontract, hsuffix⟩ := contractIsLidl_iff.1 hlidl
          rw [hlidl, hcontract] at huse
          obtain rfl | huse | huse := huse
          · exact .dep hqt hcross hcontract hsuffix
          · cases huse
          · exact absurd huse Script.not_uses_require
      | false =>
        rw [hcross] at huse
        have hintrospect {plugin : String} (h : (i.introspect plugin).Uses call) :
            Calls i call := by
          obtain h | h := h
          · obtain ⟨events, rfl⟩ := guard_uses h
            exact .module hqt hcross
          · obtain ⟨events, rfl⟩ := guard_uses h
            exact .module hqt hcross
        obtain huse | huse | huse := huse
        · exact hintrospect huse
        · exact hintrospect huse
        · cases huse
  · exact absurd huse Script.not_uses_require
  · cases huse

end

/-- Every generator a headers derivation may come to is among its inputs, works in its API style
and is the one its build log names; a compiled plugin is loaded only where there is no other way
and never across platforms, and a contract that is read is the module's own. -/
theorem headers_calls (i : HeadersInput) (call : HeadersCall) (huse : i.build.Uses call) :
    call.program ∈ i.nativeBuildInputs ∧ call.apiStyle = i.apiStyle ∧
    call.outputDir = generatedHeaders ∧
    (call.program = .qtGenerator ↔ i.emitter = .qtConsumer) ∧
    (call.introspects = true ↔ i.isWindows = false ∧ i.emitter ≠ .qtConsumer) ∧
    (call.introspects = false → ∃ contract, i.contractLidl = some contract ∧
      hasSuffix ".lidl" contract = true ∧ call.contract = some contract) := by
  rw [Ne, emitter_qtConsumer, HeadersInput.nativeBuildInputs]
  cases build_calls huse with
  | consumer hqt hcontract hsuffix =>
    rw [if_pos hqt]
    exact ⟨List.mem_cons_self .., (useQtConsumer_apiStyle hqt).symm, rfl, iff_of_true rfl hqt,
      iff_of_false nofun fun h => h.2 hqt, fun _ => ⟨_, hcontract, hsuffix, rfl⟩⟩
  | dep hqt hcross hcontract hsuffix =>
    rw [hqt, hcross]
    exact ⟨List.mem_cons_self .., rfl, rfl, iff_of_false nofun nofun, iff_of_false nofun nofun,
      fun _ => ⟨_, hcontract, hsuffix, rfl⟩⟩
  | module hqt hcross =>
    rw [hqt, hcross]
    exact ⟨List.mem_cons_self .., rfl, rfl, iff_of_false nofun nofun, iff_of_true rfl ⟨rfl, nofun⟩,
      nofun⟩

theorem headers_calls_contract : contractHeaders.build.Uses
      (.consumer "demo_module.lidl" "demo_module" generatedHeaders) ∧
    Author.qtGenerator ∈ contractHeaders.nativeBuildInputs :=
  ⟨.inl (.inl rfl), (headers_calls contractHeaders _ (.inl (.inl rfl))).1⟩

end LogosPluginQt
