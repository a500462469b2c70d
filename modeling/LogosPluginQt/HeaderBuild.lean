import LogosPluginQt.Generation

namespace LogosPluginQt
open ShellScript
set_option autoImplicit true

abbrev Listing := List (String × BuiltFile)

namespace Listing

def lookup (l : Listing) (n : String) : Option BuiltFile := (l.find? (·.1 == n)).map Prod.snd

@[simp] theorem lookup_cons_self {n : String} {f : BuiltFile} {l : Listing} :
    lookup ((n, f) :: l) n = some f := by
  have hn : ((n, f).1 == n) = true := beq_self_eq_true _
  rw [lookup, List.find?_cons, hn]
  rfl

theorem lookup_cons_of_ne {n n' : String} {f : BuiltFile} {l : Listing} (h : n' ≠ n) :
    lookup ((n', f) :: l) n = lookup l n := by
  have hn : ((n', f).1 == n) = false := beq_false_of_ne h
  rw [lookup, List.find?_cons, hn]
  rfl

/-- `[ -f n ]`. -/
def has (l : Listing) (n : String) : Bool := (l.lookup n).isSome

/-- `[ -s n ]`. -/
def hasText (l : Listing) (n : String) : Bool := (l.lookup n).any fun f => f.text != ""

end Listing

abbrev HeadersTree := String → Listing

def generatedHeaders : String := "./generated_headers"

def outInclude : String := "$out/include"

/-- What `buildHeaders` is given; `lib` is the store path of the built plugin. -/
structure HeadersInput where
  name : String
  version : String
  apiStyle : String
  contractLidl : Option String
  qtGenerator : Bool
  isWindows : Bool
  lib : String

inductive HeadersCall where
  /-- `logos-cpp-generator <plugin> --module-only`. -/
  | module (plugin outputDir apiStyle : String) (eventsFrom : Option String)
  /-- `logos-cpp-generator --general-only --dep <name>=<contract>`, with the metadata it needs. -/
  | dep (name version outputDir apiStyle contract : String)
  /-- `logos-qt-generator --lidl <contract> --backend consumer --bind static`. -/
  | consumer (contract name outputDir : String)

namespace HeadersCall

def program : HeadersCall → Author
  | .module _ _ _ _ | .dep _ _ _ _ _ => .cppGenerator
  | .consumer _ _ _ => .qtGenerator

def outputDir : HeadersCall → String
  | .module _ dir _ _ | .dep _ _ dir _ _ | .consumer _ _ dir => dir

def apiStyle : HeadersCall → String
  | .module _ _ style _ | .dep _ _ _ style _ => style
  | .consumer _ _ _ => "qt"

def introspects : HeadersCall → Bool
  | .module _ _ _ _ => true
  | _ => false

def contract : HeadersCall → Option String
  | .module _ _ _ _ => none
  | .dep _ _ _ _ contract | .consumer contract _ _ => some contract

end HeadersCall

structure HeadersGenerators where
  exec : HeadersCall → HeadersTree → Nat → HeadersTree → Prop
  frame : ∀ {call s status s'}, exec call s status s' → ∀ d, d ≠ call.outputDir → s' d = s d
  authored : ∀ {call s status s'}, exec call s status s' → ∀ entry ∈ s' call.outputDir,
    entry ∈ s call.outputDir ∨ entry.2.author = call.program

def HeadersGenerators.runIn (gens : HeadersGenerators) (inputs : List Author) (call : HeadersCall)
    (s : HeadersTree) (status : Nat) (s' : HeadersTree) : Prop :=
  if call.program ∈ inputs then gens.exec call s status s' else status = 127 ∧ s' = s

def wrapperInto (author : Author) (name text : String) (dir : Listing) : Listing :=
  (name ++ "_api.h", ⟨author, text⟩) :: (name ++ "_api.cpp", ⟨author, text⟩) ::
    dir.filter fun entry => entry.1 != name ++ "_api.h" && entry.1 != name ++ "_api.cpp"

def HeadersGenerators.writing (name text : String) : HeadersGenerators where
  exec call s status s' := status = 0 ∧ s' = Function.update s call.outputDir
    (wrapperInto call.program name text (s call.outputDir))
  frame := by
    rintro call s status _ ⟨_, rfl⟩ d hd
    exact Function.update_of_ne hd ..
  authored := by
    rintro call s status _ ⟨_, rfl⟩ entry hentry
    rw [Function.update_self] at hentry
    obtain rfl | hentry := List.mem_cons.1 hentry
    · exact .inr rfl
    · obtain rfl | hentry := List.mem_cons.1 hentry
      · exact .inr rfl
      · exact .inl (List.mem_filter.1 hentry).1

abbrev HeadersScript := Script HeadersTree HeadersCall

/-- `generate-module-headers.sh`, behind the check of its arguments. -/
def runGuarded (onPath : Bool) (plugin outputDir apiStyle eventsSidecar : String) :
    HeadersScript :=
  .seq (.require (fun _ => onPath) 1)
    (.seq (.run (.module plugin outputDir apiStyle
        (if eventsSidecar = "" then none else some eventsSidecar)))
      (.require (fun s => (s outputDir).any (fun entry => globMatch "_api.h" entry.1) &&
        (s outputDir).any fun entry => globMatch "_api.cpp" entry.1) 1))

/-- `generate-module-headers.sh`: the status of the generator is its own. -/
def generateModuleHeaders (onPath : Bool) (args : List String) : HeadersScript :=
  match args with
  | [plugin, outputDir, apiStyle] => runGuarded onPath plugin outputDir apiStyle ""
  | [plugin, outputDir, apiStyle, eventsSidecar] =>
    runGuarded onPath plugin outputDir apiStyle eventsSidecar
  | _ => .exit 64

inductive Emitter where
  | qtConsumer
  | lp
  | noContract
  | staleCaller
deriving DecidableEq

def Emitter.text (name : String) : Emitter → String
  | .qtConsumer => "qt-consumer  (logos-qt-generator --backend consumer; '" ++ name ++
    "' publishes a LIDL contract)"
  | .lp => "lp           (logos-cpp-generator --api-style lp; not the legacy Qt emitter, and " ++
    "logos-qt-generator has no lp backend)"
  | .noContract => "legacy-qt    (logos-cpp-generator --api-style qt; '" ++ name ++
    "' publishes NO LIDL contract, so its compiled plugin is the only description of its API)"
  | .staleCaller => "legacy-qt    (logos-cpp-generator --api-style qt; REGRESSION: '" ++ name ++
    "' HAS a contract but the caller passed no qtGenerator — logos-module-builder is stale)"

/-- `grep -q 'logos::qt::LpBridge'`. -/
def namesLpBridge (text : String) : Bool :=
  text.toList.tails.any "logos::qt::LpBridge".toList.isPrefixOf

namespace HeadersInput

def contractIsLidl (i : HeadersInput) : Bool := i.contractLidl.any (hasSuffix ".lidl")

def isQt (i : HeadersInput) : Bool := i.apiStyle == "qt"

def useQtConsumer (i : HeadersInput) : Bool := i.isQt && i.contractIsLidl && i.qtGenerator

def emitter (i : HeadersInput) : Emitter :=
  if i.useQtConsumer then .qtConsumer
  else if !i.isQt then .lp
  else if !i.contractIsLidl then .noContract
  else .staleCaller

def header (i : HeadersInput) : String := i.name ++ "_api.h"

def source (i : HeadersInput) : String := i.name ++ "_api.cpp"

def nativeBuildInputs (i : HeadersInput) : List Author :=
  if i.useQtConsumer then [.qtGenerator] else [.cppGenerator]

def qtConsumerBuildPhase (i : HeadersInput) (contract : String) : HeadersScript :=
  .seq (.run (.consumer contract i.name generatedHeaders))
    (.seq (.require (fun s => (s generatedHeaders).hasText i.header &&
        (s generatedHeaders).hasText i.source) 1)
      (.require (fun s => ((s generatedHeaders).lookup i.header).any fun f =>
        namesLpBridge f.text) 1))

def crossBuildPhase (i : HeadersInput) : HeadersScript :=
  match i.contractLidl with
  | some contract =>
    if !i.contractIsLidl then .exit 1
    else .seq (.run (.dep i.name i.version generatedHeaders i.apiStyle contract))
      (.seq (.edit fun s => some (Function.update s generatedHeaders
          ((s generatedHeaders).filter fun entry => !umbrellaFiles.contains entry.1)))
        (.require (fun s => (s generatedHeaders).has i.header) 1))
  | none => .exit 1

def introspect (i : HeadersInput) (plugin : String) : HeadersScript :=
  let onPath := i.nativeBuildInputs.contains .cppGenerator
  .ite (fun s => (s (i.lib ++ "/share/logos")).has (i.name ++ ".lidl"))
    (generateModuleHeaders onPath [plugin, generatedHeaders, i.apiStyle,
      i.lib ++ "/share/logos/" ++ i.name ++ ".lidl"])
    (generateModuleHeaders onPath [plugin, generatedHeaders, i.apiStyle, ""])

def nativeLegacyBuildPhase (i : HeadersInput) : HeadersScript :=
  let dylib := i.name ++ "_plugin.dylib"
  let so := i.name ++ "_plugin.so"
  .ite (fun s => (s (i.lib ++ "/lib")).has dylib) (i.introspect (i.lib ++ "/lib/" ++ dylib))
    (.ite (fun s => (s (i.lib ++ "/lib")).has so) (i.introspect (i.lib ++ "/lib/" ++ so))
      (.exit 1))

def buildPhase (i : HeadersInput) : HeadersScript :=
  if i.useQtConsumer then i.qtConsumerBuildPhase (i.contractLidl.getD "")
  else if i.isWindows then i.crossBuildPhase
  else i.nativeLegacyBuildPhase

def installed (entry : String × BuiltFile) : Bool :=
  hasSuffix ".h" entry.1 || hasSuffix ".cpp" entry.1

def installPhase : HeadersScript :=
  .seq (.require (fun s => (s generatedHeaders).any installed) 1)
    (.edit fun s => some (Function.update s outInclude ((s generatedHeaders).filter installed)))

def build (i : HeadersInput) : HeadersScript := .seq i.buildPhase installPhase

end HeadersInput

end LogosPluginQt
