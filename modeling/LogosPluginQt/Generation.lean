import LogosPluginQt.ShellScript

namespace LogosPluginQt
open ShellScript
set_option autoImplicit true

structure ModuleConfig where
  name : String
  interface : String
  type : Option String
  consumerApiStyle : Option String

structure ContractDep where
  name : String
  path : String
  implClass : Option String

/-- What `mkGeneration` is given; of the legacy dependencies it reads the names. -/
structure GenerationInput where
  config : ModuleConfig
  moduleDeps : List String
  interfaceDeps : List ContractDep
  staticDeps : List ContractDep

inductive EvalError where
  | consumerApiStyle (name interface type : String)
  | legacyHeaderDeps (name : String) (deps : List String)
  | contract (name path : String)
deriving DecidableEq

namespace EvalError

def message : EvalError → String
  | .consumerApiStyle name interface type => String.intercalate "\n" [
    "logos-plugin-qt: module '" ++ name ++ "' asks for the lp (Qt-free) consumer surface,",
    "but its dependency wrappers compile into a Qt PLUGIN object.",
    "",
    "interface = \"" ++ interface ++ "\", type = \"" ++ type ++ "\" — that image holds a",
    "LogosAPI and exports no `logos_module_accept_token`, so nothing would ever populate the",
    "TokenManager the lp wrappers read. Every outbound call would present an empty auth token",
    "and come back as a default value with no error surfaced.",
    "",
    "Fix the `codegen.consumer_api_style` key in that module's metadata.json (drop it to get",
    "this module's default, \"qt\"), or make the module a cdylib provider",
    "(`interface: \"universal\"` / `interface: \"cdylib\"`).",
    ""]
  | .legacyHeaderDeps name deps => String.intercalate "\n" [
    "logos-plugin-qt: module '" ++ name ++ "' has dependencies that publish no LIDL contract:",
    "  " ++ String.intercalate ", " deps,
    "",
    "The header-copy fallback that used to serve them was removed. A consumer",
    "wrapper is now generated from the dependency's published `lidl` output",
    "(`--dep <name>=<name>.lidl`), which needs no dependency plugin build and",
    "works under cross-compilation.",
    "",
    "Fix: rebuild / re-pin each dependency above against a current",
    "logos-module-builder. Any module built by one publishes a `lidl`",
    "contract; `interface: \"universal\"` derives it from the impl header",
    "automatically.",
    ""]
  | .contract name path => String.intercalate "\n" [
    "logos-plugin-qt: cannot generate the Qt consumer wrapper for '" ++ name ++ "' from " ++
      path ++ ".",
    "",
    "A dependency/interface contract is either a `.lidl` file or the C++",
    "impl header it is derived from (`.h`/`.hpp`, which additionally",
    "needs `impl_class`). Fix the metadata.json entry that names it",
    "(`interface_dependencies` or `dependency_overrides`).",
    ""]

end EvalError

def hasSuffix (suffix s : String) : Bool := suffix.toList.isSuffixOf s.toList

theorem hasSuffix_append (a suffix : String) : hasSuffix suffix (a ++ suffix) = true := by
  rw [hasSuffix, List.isSuffixOf_iff_suffix, String.toList_append]
  exact List.suffix_append ..

theorem hasSuffix_trans {a b s : String} (hab : hasSuffix a b = true)
    (h : hasSuffix b s = true) : hasSuffix a s = true := by
  rw [hasSuffix, List.isSuffixOf_iff_suffix] at *
  exact hab.trans h

namespace ModuleConfig

/-- The wrappers are compiled into an image that exports the module-impl C ABI as well. -/
def packagedAsCdylib (c : ModuleConfig) : Bool :=
  c.interface == "cdylib" || (c.interface == "universal" && c.type.getD "core" != "ui_qml")

def apiStyle (c : ModuleConfig) : String :=
  match c.consumerApiStyle with
  | some declared => declared
  | none => if c.packagedAsCdylib then "lp" else "qt"

def isQt (c : ModuleConfig) : Bool := c.apiStyle == "qt"

def originBound (c : ModuleConfig) : Bool := c.isQt && c.packagedAsCdylib

def assertConsumerApiStyle (c : ModuleConfig) : Except EvalError Unit :=
  if c.apiStyle != "lp" || c.packagedAsCdylib then .ok ()
  else .error (.consumerApiStyle c.name c.interface (c.type.getD "core"))

end ModuleConfig

inductive Bind where
  | static
  | bound
deriving DecidableEq

structure ConsumerSpec extends ContractDep where
  bind : Bind

inductive ContractInput where
  | lidl (path : String)
  | header (path implClass : String)
deriving DecidableEq

namespace ContractDep

def isHeader (e : ContractDep) : Bool := hasSuffix ".h" e.path || hasSuffix ".hpp" e.path

def contractInput (e : ContractDep) : Except EvalError ContractInput :=
  if hasSuffix ".lidl" e.path then .ok (.lidl e.path)
  else match e.isHeader, e.implClass with
    | true, some implClass => .ok (.header e.path implClass)
    | _, _ => .error (.contract e.name e.path)

end ContractDep

/-- The directories of a generation: the generated code and its `include`, and two scratch ones. -/
inductive GenDir where
  | generatedCode
  | include
  | umbrella
  | scratch
deriving DecidableEq

/-- Who wrote a file last: it came with the module's source, or one of the tools did. -/
inductive Author where
  | module
  | script
  | cppGenerator
  | qtGenerator
deriving DecidableEq

structure BuiltFile where
  author : Author
  text : String

abbrev GenTree := Tree GenDir String BuiltFile

/-- `logos-cpp-generator --metadata metadata.json --general-only`. -/
structure CppCall where
  apiStyle : String
  originBinding : Bool
  outputDir : GenDir
  interfaces : List ContractDep
  deps : List ContractDep

/-- `logos-qt-generator --backend consumer`. -/
structure QtCall where
  input : ContractInput
  module : String
  bind : Bind
  originBinding : Bool
  outputDir : GenDir

inductive GeneratorCall where
  | cpp (call : CppCall)
  | qt (call : QtCall)

namespace GeneratorCall

def outputDir : GeneratorCall → GenDir
  | .cpp call => call.outputDir
  | .qt call => call.outputDir

def author : GeneratorCall → Author
  | .cpp _ => .cppGenerator
  | .qt _ => .qtGenerator

def originBinding : GeneratorCall → Bool
  | .cpp call => call.originBinding
  | .qt call => call.originBinding

def apiStyle : GeneratorCall → String
  | .cpp call => call.apiStyle
  | .qt _ => "qt"

end GeneratorCall

def apiFiles (name : String) : List String := [name ++ "_api.h", name ++ "_api.cpp"]

def umbrellaFiles : List String := ["logos_sdk.h", "logos_sdk.cpp"]

theorem apiFiles_ne_umbrella {name n : String} (hn : n ∈ apiFiles name) : n ∉ umbrellaFiles := by
  have hlast {a : String} (h : hasSuffix a n = true) : a.toList <:+ n.toList :=
    List.isSuffixOf_iff_suffix.1 h
  intro hu
  obtain rfl | hn := List.mem_cons.1 hn
  · have h := hlast (hasSuffix_append name "_api.h")
    obtain he | hu := List.mem_cons.1 hu
    · rw [he] at h
      exact absurd h (by decide)
    · rw [List.mem_singleton.1 hu] at h
      exact absurd h (by decide)
  · obtain rfl := List.mem_singleton.1 hn
    have h := hlast (hasSuffix_append name "_api.cpp")
    obtain he | hu := List.mem_cons.1 hu
    · rw [he] at h
      exact absurd h (by decide)
    · rw [List.mem_singleton.1 hu] at h
      exact absurd h (by decide)

/-- The generators; their code is not here. They may fail or not and write what they like, in
their output directory, and the consumer backend writes the wrapper it is asked for. -/
structure Generators where
  exec : GeneratorCall → GenTree → Nat → GenTree → Prop
  frame : ∀ {call s status s'}, exec call s status s' → ∀ d, d ≠ call.outputDir → s' d = s d
  authored : ∀ {call s status s'}, exec call s status s' → ∀ n f,
    s' call.outputDir n = some f → s call.outputDir n = some f ∨ f.author = call.author
  consumer : ∀ {call s status s'}, exec (.qt call) s status s' →
    ∀ n ∉ apiFiles call.module, s' call.outputDir n = s call.outputDir n

def GeneratorCall.files : GeneratorCall → List String
  | .cpp _ => umbrellaFiles
  | .qt call => apiFiles call.module

def GeneratorCall.write (call : GeneratorCall) (text : String) (s : GenTree) : GenTree :=
  Function.update s call.outputDir fun n =>
    if n ∈ call.files then some ⟨call.author, text⟩ else s call.outputDir n

def Generators.writing (text : String) : Generators where
  exec call s status s' := status = 0 ∧ s' = call.write text s
  frame := by
    rintro call s status _ ⟨_, rfl⟩ d hd
    exact Function.update_of_ne hd ..
  authored := by
    rintro call s status _ ⟨_, rfl⟩ n f hf
    rw [GeneratorCall.write, Function.update_self] at hf
    split at hf
    · obtain rfl := Option.some.inj hf
      exact .inr rfl
    · exact .inl hf
  consumer := by
    rintro call s status _ ⟨_, rfl⟩ n hn
    have hdir : (GeneratorCall.qt call).write text s call.outputDir n =
        if n ∈ apiFiles call.module then some ⟨.qtGenerator, text⟩ else s call.outputDir n :=
      congrFun (@Function.update_self GenDir (fun _ => String → Option BuiltFile) ..) n
    rw [hdir, if_neg hn]

abbrev GenScript := Script GenTree GeneratorCall

/-- `[ -s d/n ]`. -/
def nonEmpty (d : GenDir) (n : String) (s : GenTree) : Bool := (s d n).any fun f => f.text != ""

/-- What `*suffix` stands for in a directory. -/
def globMatch (suffix n : String) : Bool :=
  hasSuffix suffix n && n.toList.head? != some '.' && !n.toList.contains '/'

namespace GenerationInput

def staticDepNames (g : GenerationInput) : List String := g.staticDeps.map ContractDep.name

def legacyHeaderDepNames (g : GenerationInput) : List String :=
  g.moduleDeps.filter fun name => !g.staticDepNames.contains name

def assertNoLegacyHeaderDeps (g : GenerationInput) : Except EvalError Unit :=
  if g.legacyHeaderDepNames.isEmpty then .ok ()
  else .error (.legacyHeaderDeps g.config.name g.legacyHeaderDepNames)

def consumerSpecs (g : GenerationInput) : List ConsumerSpec :=
  g.staticDeps.map (fun e => ⟨e, .static⟩) ++ g.interfaceDeps.map fun e => ⟨e, .bound⟩

def synthMeta (e : ConsumerSpec) : GenScript :=
  if e.isHeader && e.implClass.isSome then
    .edit fun s => some (s.put .scratch "meta.json"
      (some ⟨.script, "\x7b\"name\":\"" ++ e.name ++ "\"\x7d"⟩))
  else .skip

/-- One run of the consumer backend, and the check that it has left a wrapper. -/
def consumerScript (g : GenerationInput) (e : ConsumerSpec) (input : ContractInput) : GenScript :=
  .seq (synthMeta e) (.seq
    (.run (.qt ⟨input, e.name, e.bind, g.config.originBound, .generatedCode⟩))
    (.require (fun s => (apiFiles e.name).all fun n => nonEmpty .generatedCode n s) 1))

def qtConsumerCall (g : GenerationInput) (e : ConsumerSpec) : Except EvalError GenScript :=
  e.contractInput.map (g.consumerScript e)

def takeUmbrella : GenScript :=
  .all (umbrellaFiles.map fun u =>
    .seq (.require (nonEmpty .umbrella u) 1) (.edit (Tree.copy .umbrella u .generatedCode)))

/-- A directory of its own, from `mktemp -d` to `rm -rf`. -/
def inFresh (d : GenDir) (script : GenScript) : GenScript :=
  .seq (.edit fun s => some (s.clear d)) (.seq script (.edit fun s => some (s.clear d)))

def umbrellaCall (g : GenerationInput) : CppCall :=
  ⟨"qt", g.config.originBound, .umbrella, g.interfaceDeps, []⟩

def generatorCalls (g : GenerationInput) : Except EvalError GenScript :=
  if !g.config.isQt then
    .ok (.run (.cpp ⟨g.config.apiStyle, false, .generatedCode, g.interfaceDeps, g.staticDeps⟩))
  else do
    let consumers ← g.consumerSpecs.mapM g.qtConsumerCall
    return .seq (inFresh .umbrella (.seq (.run (.cpp g.umbrellaCall)) takeUmbrella))
      (inFresh .scratch (.all consumers))

/-- The headers are moved to `include`, the sources copied. -/
def organize : GenScript :=
  .ite (fun s => (s .generatedCode "core_manager_api.h").isSome ||
      (s .generatedCode "logos_sdk.h").isSome)
    (.seq (.edit fun s => some (s.moveAll (globMatch ".h") .generatedCode .include))
      (.edit fun s => some (s.copyAll (globMatch ".cpp") .generatedCode .include)))
    .skip

/-- `mkGeneration`, up to the hook of the module's own. -/
def generationScript (g : GenerationInput) : Except EvalError GenScript := do
  g.config.assertConsumerApiStyle
  g.assertNoLegacyHeaderDeps
  let calls ← g.generatorCalls
  return .seq calls organize

end GenerationInput

end LogosPluginQt
