import LogosPluginQt.Directories
import LogosPluginQt.Generation

namespace LogosPluginQt
open Directories
set_option autoImplicit true

abbrev BuildDir (F : Type) := Dir String F

/-- What `*` stands for in a directory, as far as `glob` takes it, in its order. -/
def BuildDir.expand (d : BuildDir F) (glob : String → Bool) : List String :=
  (d.keys.filter fun n => globMatch "" n && glob n).insertionSort (· ≤ ·)

/-- `[ -f d/n ]`. -/
def BuildDir.isFile (d : BuildDir F) (n : String) : Bool := (d.lookup n).any Entry.isFile

def BuildDir.content (d : BuildDir F) (n : String) : Option F := (d.lookup n).bind Entry.content

/-- The copy of what `n` stands for in `from`. -/
def BuildDir.taken (d : BuildDir F) (force : Bool) (n : String) (old : Option (Entry F)) :
    Option (Entry F) :=
  (d.lookup n).bind fun e => e.cp force old

/-! The external libraries, staged in `lib` before anything is generated. -/

structure ExternalLibrary where
  name : String
  vendorPath : Option String

inductive LibInfo (F : Type) where
  | file (base : String) (e : Entry F)
  | tree (lib bin includeDir : Option (BuildDir F))

/-- Under the Windows convention the runtime half is in `bin`; only the library's own is taken. -/
def runtimeNames (name : String) : List String := ["lib" ++ name ++ ".dll", name ++ ".dll"]

/-- `cp -r d/* lib/`, as far as the names in `d` and its files go; a link in `d` is out of view. -/
def takeAll (d : Option (BuildDir F)) (shelf : BuildDir F) : BuildDir F :=
  match d with
  | some d => shelf.attempt (d.expand fun _ => true) (d.taken false)
  | none => shelf

def takeRuntime (name : String) (bin : Option (BuildDir F)) (shelf : BuildDir F) : BuildDir F :=
  match bin with
  | some bin => shelf.attempt ((runtimeNames name).filter bin.isFile) (bin.taken true)
  | none => shelf

def LibInfo.stage (name : String) (info : LibInfo F) (shelf : BuildDir F) : BuildDir F :=
  match info with
  | .file base e => shelf.attempt [base] fun _ old => e.cp false old
  | .tree lib bin includeDir => takeAll includeDir (takeRuntime name bin (takeAll lib shelf))

def takeVendored (d : BuildDir F) (shelf : BuildDir F) : BuildDir F :=
  shelf.attempt ((d.expand fun n => "lib".toList.isPrefixOf n.toList).filter d.isFile)
    (d.taken false)

section
variable (externalLibs : String → Option (LibInfo F)) (source : String → BuildDir F)

def ExternalLibrary.stage (extLib : ExternalLibrary) (shelf : BuildDir F) : BuildDir F :=
  match externalLibs extLib.name, extLib.vendorPath with
  | some libInfo, _ => (libInfo.stage extLib.name shelf).chmod
  | none, some path => (takeVendored (source path) shelf).chmod
  | none, none => shelf

def externalLibCopies (libraries : List ExternalLibrary) (shelf : BuildDir F) : BuildDir F :=
  libraries.foldl (fun shelf extLib => extLib.stage externalLibs source shelf) shelf

end

/-! The plugin, installed after it has been compiled. -/

/-- What a compiled module's tree holds: `./modules`, `.`, the staged `lib`, the source's own, and
the generated code, seen from the build directory and from the source. -/
structure BuildTree (F : Type) where
  modules : BuildDir F
  build : BuildDir F
  staged : BuildDir F
  srcLib : BuildDir F
  includeDir : Option (BuildDir F)
  generatedCode : BuildDir F

structure PluginOutput (F : Type) where
  lib : BuildDir F
  includeDir : BuildDir F
  logos : BuildDir F

/-- What reads and rewrites Mach-O files, and what is known of it. `refs` are the libraries a
file names; a tool is told whether the file can be written. -/
structure MachTools (F : Type) where
  refs : F → List String
  setId : String → Bool → F → Option F
  change : String → String → Bool → F → Option F
  otool : F → Option (List String)
  grep : String → String → Bool
  setId_refs : ∀ {newId writable f f'}, setId newId writable f = some f' → refs f' = refs f
  change_refs : ∀ {old new writable f f'}, change old new writable f = some f' →
    refs f' = (refs f).map fun r => if r = old then new else r
  otool_refs : ∀ {f lines}, otool f = some lines →
    ∀ r ∈ refs f, (∀ c ∈ r.toList, c.isWhitespace = false ∧ c ≠ '\\') → r ∈ lines
  grep_literal : ∀ {pattern line : String}, (∀ c ∈ pattern.toList, c ∉ "[\\*^$".toList) →
    pattern.toList <:+: line.toList → grep pattern line = true

def getLibExtension (isDarwin isWindows : Bool) : String :=
  if isDarwin then "dylib" else if isWindows then "dll" else "so"

structure PluginInput where
  name : String
  isDarwin : Bool
  isWindows : Bool

def BuildTree.find (t : BuildTree F) (base : String) : Option (String × Entry F) :=
  [t.modules, t.build].findSome? fun d =>
    ["dylib", "so", "dll"].findSome? fun ext =>
      ((d.lookup (base ++ "." ++ ext)).filter Entry.isFile).map fun e => (base ++ "." ++ ext, e)

def BuildTree.installInclude (t : BuildTree F) : Option (BuildDir F) :=
  match t.includeDir with
  | some d =>
    if (d.expand fun _ => true).isEmpty then none
    else (∅ : BuildDir F).each (d.expand fun _ => true) (d.taken false)
  | none => some ∅

namespace MachTools
variable (tools : MachTools F)

/-- Names one shipped library by `@rpath`, whatever it was named by. -/
def relinkTo (l : String) (writable : Bool) (f : F) : Option F :=
  let rpath := "@rpath/" ++ l
  let f := (tools.change l rpath writable f).getD f
  (tools.otool f).map fun lines =>
    (lines.filter (tools.grep ("/" ++ l))).foldl
      (fun f old => (tools.change old rpath writable f).getD f) f

def relink (plugin : String) (libs : List String) (writable : Bool) (f : F) : Option F :=
  libs.foldlM (fun f l => if l = plugin then some f else tools.relinkTo l writable f) f

def onFile (tool : Bool → F → Option F) (old : Option (Entry F)) : Option (Entry F) :=
  match old with
  | some (.file writable f) => (tool writable f).map (.file writable)
  | _ => none

def fixId (n : String) (lib : BuildDir F) : Option (BuildDir F) :=
  if lib.isFile n then lib.each [n] fun n => onFile (tools.setId ("@rpath/" ++ n)) else some lib

def fixIds (lib : BuildDir F) : BuildDir F :=
  lib.attempt (lib.expand (hasSuffix ".dylib")) fun n =>
    onFile (tools.setId ("@rpath/" ++ n))

def fixReferences (lib : BuildDir F) : Option (BuildDir F) :=
  lib.each ((lib.expand (hasSuffix "_plugin.dylib")).filter lib.isFile) fun n =>
    onFile (tools.relink n (lib.expand (hasSuffix ".dylib")))

end MachTools

namespace PluginInput
variable (i : PluginInput) (tools : MachTools F)

def libExt : String := getLibExtension i.isDarwin i.isWindows

def plugin : String := i.name ++ "_plugin"

def replicaFactory : String := i.name ++ "_replica_factory"

def installPlugin (t : BuildTree F) (lib : BuildDir F) : Option (BuildDir F) :=
  (t.find i.plugin).bind fun found => lib.each [found.1] fun _ old => found.2.cp false old

def installReplicaFactory (t : BuildTree F) (lib : BuildDir F) : Option (BuildDir F) :=
  match t.find i.replicaFactory with
  | some found => lib.each [found.1] fun _ old => found.2.cp false old
  | none => some lib

def libraries (d : BuildDir F) : List String :=
  (d.expand (hasSuffix ("." ++ i.libExt))).filter d.isFile

def installLibraries (d : BuildDir F) (lib : BuildDir F) : Option (BuildDir F) :=
  lib.each (i.libraries d) (d.taken false)

def copyLibraries (t : BuildTree F) : Option (BuildDir F) := do
  let lib ← i.installPlugin t ∅
  let lib ← i.installReplicaFactory t lib
  let lib ← i.installLibraries t.staged lib
  i.installLibraries t.srcLib lib

def fixLibraryPaths (lib : BuildDir F) : Option (BuildDir F) :=
  if i.isDarwin then do
    let lib ← tools.fixId (i.plugin ++ ".dylib") lib
    let lib ← tools.fixId (i.replicaFactory ++ ".dylib") lib
    tools.fixReferences (tools.fixIds lib)
  else some lib

def sidecar : String := i.name ++ ".lidl"

def installSidecar (t : BuildTree F) : BuildDir F :=
  (∅ : BuildDir F).attempt ([i.sidecar].filter t.generatedCode.isFile)
    (t.generatedCode.taken false)

def installPhase (t : BuildTree F) : Option (PluginOutput F) := do
  let lib ← i.copyLibraries t
  let lib ← i.fixLibraryPaths tools lib
  let includeDir ← t.installInclude
  return ⟨lib, includeDir, i.installSidecar t⟩

end PluginInput

end LogosPluginQt
