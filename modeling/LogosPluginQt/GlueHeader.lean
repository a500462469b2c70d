import LogosPluginQt.GlueLiterals
import LogosPluginQt.PascalCase

namespace LogosPluginQt
open CppLiterals
set_option autoImplicit true

structure VersionedDecl extends ModuleDecl where
  version : String

def VersionedDecl.reported (m : VersionedDecl) : String :=
  if m.version.isEmpty then "1.0.0" else m.version

def qs (q : QtText) (s : String) : String := q.fromUtf8 (utf8.units s.toList)

/-- A piece of emitted text: the emitter's own, or a quoted text, with the string of the contract
it is written for. -/
inductive Piece where
  | text (s : String)
  | quoted (contract written : String)

def Piece.chars : Piece → List Char
  | .text s => s.toList
  | .quoted _ written => '"' :: (written.toList ++ ['"'])

def emitted (pieces : List Piece) : List Char := pieces.flatMap Piece.chars

def Piece.quoted? : Piece → Option (String × String)
  | .text _ => none
  | .quoted contract written => some (contract, written)

/-- The strings of the contract that are quoted in a text, and what is written for them. -/
def quotedTexts (pieces : List Piece) : List (String × String) := pieces.filterMap Piece.quoted?

def lines (texts : List String) : List Piece := texts.map .text

namespace GlueHeader

def prologue : List Piece := lines [
  "// AUTO-GENERATED by logos-qt-host-generator --backend cdylib -- do not edit\n",
  "//\n",
  "// The UNIFORM Qt-plugin glue over the common module-impl C ABI\n",
  "// (logos_module_impl.h). Identical regardless of the module's source\n",
  "// language (C++ or Rust): it only knows the C symbols, which are\n",
  "// linked in from the module's cdylib. logos_host loads it unchanged.\n",
  "#pragma once\n\n",
  "#include \"interface.h\"\n",
  "#include \"logos_api.h\"\n",
  "#include \"logos_provider_object.h\"\n",
  "#include \"logos_json_convert.h\"\n",
  "#include \"logos_module_impl.h\"\n",
  "#include \"logos_protocol.h\"\n",
  "#include \"logos_types.h\"\n",
  "#include <QDebug>\n",
  "#include <QObject>\n",
  "#include <QJsonArray>\n",
  "#include <QJsonDocument>\n",
  "#include <QJsonObject>\n",
  "#include <QSet>\n",
  "#include <QString>\n",
  "#include <QVariant>\n",
  "#include <QVariantList>\n"]

def multiIncludes : List Piece := lines [
  "#include \"logos_async_dispatch.h\"\n",
  "#include <QSemaphore>\n",
  "#include <QVariantMap>\n",
  "#include <atomic>\n",
  "#include <cstdint>\n",
  "#include <QThread>\n",
  "#include <QThreadPool>\n",
  "#include <QUuid>\n"]

def multiConstructor (className : String) : List Piece := lines [
  "    " ++ className ++ "CdylibProvider();\n",
  "    // concurrency:\"multi\": callMethod does NOT block — it queues the call on\n",
  "    // a bounded worker pool and returns a pending sentinel at once, then a worker\n",
  "    // pushes the result back as a completion event. This is the SAME callMethod slot every\n",
  "    // provider has — there is no extra provider/host vtable method, so the\n",
  "    // provider ABI is unchanged and an old host loads + forwards this module.\n"]

def overrides : List Piece := lines [
  "    QVariant callMethod(const QString& methodName, const QVariantList& args) override;\n",
  "    QJsonArray getMethods() override;\n",
  "    bool informModuleToken(const QString& moduleName, const QString& token) override;\n",
  "    void setEventListener(EventCallback callback) override;\n"]

def stringMember (name contract written : String) : List Piece :=
  [.text ("    QString " ++ name ++ "() const override \x7b return QStringLiteral("),
    .quoted contract written, .text "); \x7d\n"]

def privateMembers : List Piece := lines [
  "protected:\n",
  "    void onInit(LogosAPI* api) override;\n",
  "private:\n",
  "    EventCallback m_eventCallback;\n",
  "    static void emitTrampoline(const char* eventName, const char* dataJson, void* userData);\n"]

def multiMembers : List Piece := lines [
  "    std::atomic<std::uint64_t> m_callCounter\x7b0\x7d;  // unique deferred-call ids\n",
  "    const QString m_callIdPrefix = QStringLiteral(\"lc-%1-\").arg(\n",
  "        QUuid::createUuid().toString(QUuid::Id128));  // unique per instance\n",
  "    QThreadPool m_workerPool;  // bounded, reusable dispatch workers\n"]

def pluginHead (className : String) : List Piece := lines [
  "class " ++ className ++ "CdylibPlugin : public QObject, public PluginInterface, " ++
    "public LogosProviderPlugin \x7b\n",
  "    Q_OBJECT\n",
  "    Q_PLUGIN_METADATA(IID LogosProviderPlugin_iid FILE \"metadata.json\")\n",
  "    Q_INTERFACES(PluginInterface LogosProviderPlugin)\n",
  "public:\n"]

def pluginTail (className : String) : List Piece := lines [
  "    Q_INVOKABLE int aboutToUnload();\n",
  "Q_SIGNALS:\n",
  "    // Emitted when an Asynchronous teardown has finished. The host\n",
  "    // connects to this by name and stops waiting on the first one.\n",
  "    void unloadFinished();\n",
  "public:\n",
  "    LogosProviderObject* createProviderObject() override \x7b\n",
  "        return new " ++ className ++ "CdylibProvider();\n",
  "    \x7d\n",
  "\x7d;\n"]

def setItems (q : QtText) : List String → List Piece
  | [] => []
  | name :: rest =>
    [.text "QStringLiteral(", .quoted name (qs q name), .text ")"] ++
      (if rest.isEmpty then [] else [.text ", "]) ++ setItems q rest

def setLine (q : QtText) (set : String) (names : List String) : List Piece :=
  if names.isEmpty then []
  else
    [.text ("    static const QSet<QString> " ++ set ++ " = \x7b")] ++ setItems q names ++
      [.text "\x7d;\n"]

def kVoidMethods (q : QtText) (m : ModuleDecl) : List Piece :=
  setLine q "kVoidMethods" m.voidMethods

def kResultMethods (q : QtText) (m : ModuleDecl) : List Piece :=
  setLine q "kResultMethods" m.resultMethods

end GlueHeader

open GlueHeader

def lidlMakeCdylibGlueHeader (q : QtText) (chars : QtChars) (m : VersionedDecl) (multi : Bool)
    (_maxWorkers : Int) : List Piece :=
  let className := lidlToPascalCase chars (qs q m.name)
  let version := if m.version.isEmpty then "1.0.0" else qs q m.version
  prologue ++ (if multi then multiIncludes else []) ++
    lines ["#include <nlohmann/json.hpp>\n\n",
      "class " ++ className ++ "CdylibProvider : public LogosProviderBase \x7b\n", "public:\n"] ++
    (if multi then multiConstructor className else []) ++ overrides ++
    stringMember "providerName" m.name (qs q m.name) ++
    stringMember "providerVersion" m.reported version ++
    privateMembers ++ (if multi then multiMembers else []) ++ lines ["\x7d;\n\n"] ++
    pluginHead className ++ stringMember "name" m.name (qs q m.name) ++
    stringMember "version" m.reported version ++ pluginTail className

/-- Each quoted text is one literal, and its value is the string of the contract. -/
def ReadsBack (crEndsLine : Bool) (pieces : List Piece) : Prop :=
  ∀ before contract written after tail, pieces = before ++ .quoted contract written :: after →
    literal utf16 crEndsLine (emitted (.quoted contract written :: after) ++ tail) =
      some (utf16.units contract.toList, logicalLines crEndsLine (emitted after ++ tail))

/-- What is promised of the strings of a contract in the emitted header and source. -/
structure ContractLiterals (q : QtText) (chars : QtChars) (crEndsLine : Bool) (m : VersionedDecl)
    (multi : Bool) (maxWorkers : Int) : Prop where
  header : ReadsBack crEndsLine (lidlMakeCdylibGlueHeader q chars m multi maxWorkers)
  voidMethods : ReadsBack crEndsLine (kVoidMethods q m.toModuleDecl)
  resultMethods : ReadsBack crEndsLine (kResultMethods q m.toModuleDecl)

/-- A string that stands for itself between quotes: no quote, no backslash and no line end in
it, and no byte order mark before it. -/
def Unescaped (crEndsLine : Bool) (text : String) : Prop :=
  PlainText crEndsLine text.toList ∧ text.toList.head? ≠ some byteOrderMark

section
variable {q : QtText} {crEndsLine : Bool}

theorem qs_toList (s : String) : (qs q s).toList = withoutMark s.toList := by
  rw [qs, q.reads, String.toList_ofList]

theorem withoutMark_eq_self {text : List Char} (h : text.head? ≠ some byteOrderMark) :
    withoutMark text = text := by
  cases text with
  | nil => rfl
  | cons c rest =>
    have hc : c ≠ byteOrderMark := fun hc => h (congrArg some hc)
    rw [withoutMark, if_neg hc]

theorem withoutMark_length (e : Encoding α) {text : List Char}
    (h : (e.units text).length ≤ (e.units (withoutMark text)).length) :
    text.head? ≠ some byteOrderMark := by
  cases text with
  | nil => nofun
  | cons c rest =>
    rintro hc
    obtain rfl := Option.some.inj hc
    have hmark := e.length_pos byteOrderMark
    rw [withoutMark, if_pos rfl] at h
    simp only [Encoding.units, List.flatMap_cons, List.length_append] at h
    omega

theorem streamed_literal_iff (text : String) (after : List Char) :
    literal utf16 crEndsLine ('"' :: (withoutMark text.toList ++ '"' :: after)) =
        some (utf16.units text.toList, logicalLines crEndsLine after) ↔
      Unescaped crEndsLine text := by
  constructor
  · intro h
    obtain ⟨hle, hplain⟩ := literal_bound h
    have hmark := withoutMark_length utf16 hle
    rw [withoutMark_eq_self hmark] at hplain
    exact ⟨hplain (Nat.le_refl _), hmark⟩
  · intro h
    rw [withoutMark_eq_self h.2]
    exact (literal_raw_iff _ after).2 h.1

/-- What is written for each quoted string is that string, as `qs` makes it. -/
def Streamed (pieces : List Piece) : Prop :=
  ∀ p ∈ quotedTexts pieces, p.2.toList = withoutMark p.1.toList

theorem mem_quotedTexts {pieces : List Piece} {contract written : String} :
    (contract, written) ∈ quotedTexts pieces ↔ .quoted contract written ∈ pieces := by
  constructor
  · intro h
    obtain ⟨piece, hmem, hpiece⟩ := List.mem_filterMap.1 h
    cases piece with
    | text => cases hpiece
    | quoted contract' written' =>
      cases hpiece
      exact hmem
  · exact fun h => List.mem_filterMap.2 ⟨_, h, rfl⟩

theorem emitted_quoted (contract written : String) (after : List Piece) (tail : List Char) :
    emitted (.quoted contract written :: after) ++ tail =
      '"' :: (written.toList ++ '"' :: (emitted after ++ tail)) := by
  simp only [emitted, Piece.chars, List.flatMap_cons, List.cons_append, List.append_assoc,
    List.nil_append]

theorem readsBack_iff {pieces : List Piece} (h : Streamed pieces) :
    ReadsBack crEndsLine pieces ↔ ∀ p ∈ quotedTexts pieces, Unescaped crEndsLine p.1 := by
  constructor
  · intro hread p hp
    obtain ⟨before, after, hpieces⟩ := List.append_of_mem (mem_quotedTexts.1 hp)
    have hliteral := hread before p.1 p.2 after [] hpieces
    rw [emitted_quoted, h p hp] at hliteral
    exact (streamed_literal_iff p.1 _).1 hliteral
  · intro hall before contract written after tail hpieces
    have hp : (contract, written) ∈ quotedTexts pieces := by
      rw [mem_quotedTexts, hpieces]
      exact List.mem_append_right _ (List.mem_cons_self ..)
    rw [emitted_quoted, h _ hp]
    exact (streamed_literal_iff contract _).2 (hall _ hp)

theorem quotedTexts_append (pieces pieces' : List Piece) :
    quotedTexts (pieces ++ pieces') = quotedTexts pieces ++ quotedTexts pieces' :=
  List.filterMap_append

theorem quotedTexts_lines (texts : List String) : quotedTexts (lines texts) = [] := by
  rw [quotedTexts, lines, List.filterMap_map]
  exact List.filterMap_eq_nil_iff.2 fun _ _ => rfl

theorem setItems_quoted (names : List String) :
    quotedTexts (setItems q names) = names.map fun name => (name, qs q name) := by
  induction names with
  | nil => rfl
  | cons name rest ih =>
    have hcomma : quotedTexts (if rest.isEmpty then [] else [.text ", "]) = [] := by
      split <;> rfl
    rw [setItems, quotedTexts_append, quotedTexts_append, hcomma, ih]
    rfl

theorem setLine_quoted (set : String) (names : List String) :
    quotedTexts (setLine q set names) = names.map fun name => (name, qs q name) := by
  cases names with
  | nil => rfl
  | cons name rest =>
    have hset : setLine q set (name :: rest) =
        [.text ("    static const QSet<QString> " ++ set ++ " = \x7b")] ++
          setItems q (name :: rest) ++ [.text "\x7d;\n"] := rfl
    rw [hset, quotedTexts_append, quotedTexts_append, setItems_quoted]
    exact List.append_nil _

theorem header_quoted (chars : QtChars) (m : VersionedDecl) (multi : Bool) (maxWorkers : Int) :
    quotedTexts (lidlMakeCdylibGlueHeader q chars m multi maxWorkers) =
      let version := if m.version.isEmpty then "1.0.0" else qs q m.version
      [(m.name, qs q m.name), (m.reported, version), (m.name, qs q m.name),
        (m.reported, version)] := by
  have hbranch {texts : List Piece} (h : quotedTexts texts = []) :
      quotedTexts (if multi then texts else []) = [] := by
    split
    · exact h
    · rfl
  simp only [lidlMakeCdylibGlueHeader, quotedTexts_append, prologue, overrides, privateMembers,
    pluginHead, pluginTail, quotedTexts_lines, hbranch (quotedTexts_lines _), multiIncludes,
    multiConstructor, multiMembers]
  rfl

theorem reported_streamed (m : VersionedDecl) :
    (if m.version.isEmpty then "1.0.0" else qs q m.version).toList =
      withoutMark m.reported.toList := by
  unfold VersionedDecl.reported
  split
  · rw [withoutMark_eq_self (by decide)]
  · exact qs_toList m.version

theorem reported_unescaped (m : VersionedDecl) :
    Unescaped crEndsLine m.reported ↔ Unescaped crEndsLine m.version := by
  unfold VersionedDecl.reported
  split
  next hempty =>
    have hdefault : PlainText crEndsLine "1.0.0".toList := by
      cases crEndsLine with
      | false => decide
      | true => decide
    rw [String.isEmpty_iff.1 hempty]
    apply iff_of_true
    · exact ⟨hdefault, by decide⟩
    · exact ⟨⟨nofun, fun _ => nofun⟩, nofun⟩
  next => rfl

theorem header_readsBack_iff (chars : QtChars) (m : VersionedDecl) (multi : Bool)
    (maxWorkers : Int) :
    ReadsBack crEndsLine (lidlMakeCdylibGlueHeader q chars m multi maxWorkers) ↔
      Unescaped crEndsLine m.name ∧ Unescaped crEndsLine m.version := by
  have hstreamed : Streamed (lidlMakeCdylibGlueHeader q chars m multi maxWorkers) := by
    rw [Streamed, header_quoted]
    simp only [List.forall_mem_cons, qs_toList, reported_streamed, List.not_mem_nil,
      false_implies, implies_true, and_self]
  rw [readsBack_iff hstreamed, header_quoted]
  simp only [List.forall_mem_cons, reported_unescaped, List.not_mem_nil, false_implies,
    implies_true, and_true]
  exact ⟨fun h => ⟨h.1, h.2.1⟩, fun h => ⟨h.1, h.2, h.1, h.2⟩⟩

theorem setLine_readsBack_iff (set : String) (names : List String) :
    ReadsBack crEndsLine (setLine q set names) ↔ ∀ name ∈ names, Unescaped crEndsLine name := by
  have hstreamed : Streamed (setLine q set names) := by
    rw [Streamed, setLine_quoted]
    intro p hp
    obtain ⟨name, _, rfl⟩ := List.mem_map.1 hp
    exact qs_toList name
  rw [readsBack_iff hstreamed, setLine_quoted, List.forall_mem_map]

end

/-- The strings of a contract read back exactly where none of those that are quoted needs
escaping. -/
theorem contract_literals_iff (q : QtText) (chars : QtChars) (crEndsLine : Bool)
    (m : VersionedDecl) (multi : Bool) (maxWorkers : Int) :
    ContractLiterals q chars crEndsLine m multi maxWorkers ↔
      Unescaped crEndsLine m.name ∧ Unescaped crEndsLine m.version ∧
        (∀ name ∈ m.voidMethods, Unescaped crEndsLine name) ∧
          ∀ name ∈ m.resultMethods, Unescaped crEndsLine name := by
  constructor
  · intro h
    obtain ⟨hname, hversion⟩ := (header_readsBack_iff chars m multi maxWorkers).1 h.header
    exact ⟨hname, hversion, (setLine_readsBack_iff _ _).1 h.voidMethods,
      (setLine_readsBack_iff _ _).1 h.resultMethods⟩
  · intro ⟨hname, hversion, hvoid, hresult⟩
    exact ⟨(header_readsBack_iff chars m multi maxWorkers).2 ⟨hname, hversion⟩,
      (setLine_readsBack_iff _ _).2 hvoid, (setLine_readsBack_iff _ _).2 hresult⟩

/-- A version with a quote in it is not read back. -/
theorem version_spills : ¬ ContractLiterals .decoded .asciiOnly false
    ⟨⟨"glue_probe", []⟩, "1.0 \"beta\""⟩ false 0 := by
  intro h
  obtain ⟨_, hversion⟩ := (header_readsBack_iff _ _ _ _).1 h.header
  have hquote : ¬ PlainChar '"' := by decide
  exact hquote (hversion.1.1 '"' (by decide))

end LogosPluginQt
