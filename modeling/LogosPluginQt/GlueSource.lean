import Mathlib.Data.Prod.Lex
import LogosPluginQt.EmittedSource
import LogosPluginQt.Glue

namespace LogosPluginQt
open EmittedSource
set_option autoImplicit true

inductive GlueName where
  | methodName | args | err | jArgs | a | dumped | callerJson | result | jResult
  | kVoidMethods | rejected | kResultMethods | lr
  | method | isResultMethod | isVoidMethod | callId | eventCb | value | pending
  | noArgs | json | listed | entry | name
  | configured | workers | entered | release | finished | i
  | methods | doc | builtin
  | moduleName | token | hostOk | implOk
  | callback | eventName | dataJson | userData | self | payload
  | api | obj | authToken | hostServices
  | mEventCallback | mCallCounter | mCallIdPrefix | mWorkerPool
deriving DecidableEq

inductive ImplSymbol where
  | dispatch | stringFree | getMethods | setContext | setEmitCallback | acceptToken
  | grantHostServices | setUnloadDoneCallback | aboutToUnload | setCallCaller
  | acceptInboundToken
deriving DecidableEq

/-- The protocol version that introduced a function, where the first one did not have it. -/
def ImplSymbol.introduced : ImplSymbol → Option (Nat × Nat)
  | .grantHostServices => some (0, 3)
  | .setUnloadDoneCallback | .aboutToUnload => some (0, 5)
  | .setCallCaller => some (0, 6)
  | .acceptInboundToken => some (0, 8)
  | _ => none

/-- The one form of guard there is, expanded: it names a minor version. -/
def protocolGuard (version : Nat × Nat) (minor : Nat) : Bool :=
  version.1 > 0 || (version.1 == 0 && version.2 ≥ minor)

abbrev GlueExpr := Expr GlueName ImplSymbol

abbrev GlueStmt := Stmt GlueName ImplSymbol

abbrev GlueLine := Line Nat GlueStmt

def cppStringLiteral (value : String) : String :=
  "\"" ++ String.join (value.toList.map fun ch =>
    if ch = '\\' then "\\\\"
    else if ch = '"' then "\\\""
    else if ch = '\n' then "\\n"
    else if ch = '\r' then "\\r"
    else if ch = '\t' then "\\t"
    else ch.toString) ++ "\""

def providerMembers (multi : Bool) : List GlueName :=
  .mEventCallback :: if multi then [.mCallCounter, .mCallIdPrefix, .mWorkerPool] else []

namespace GlueSource

def lidlNullReply (module : ModuleDecl) : List GlueStmt :=
  [.function "QVariant lidlNullReply" [.method, .noArgs],
    .when (.of "&&" [.var .noArgs, .of "||" [.of "==" [.var .method, .text "\"name\""],
      .of "==" [.var .method, .text "\"version\""]]]) (.text "return QVariant()"),
    .declare "char*" .json (.call .getMethods []),
    .when (.of "!" [.var .json]) (.text "return QVariant()"),
    .declare "const nlohmann::json" .listed
      (.of "nlohmann::json::parse" [.var .json, .text "nullptr", .text "false"]),
    .expr (.call .stringFree [.var .json]),
    .when (.of "||" [.of "!.is_array" [.var .listed], .of ".empty" [.var .listed]])
      (.text "return QVariant()"),
    .forEach "const nlohmann::json&" .entry (.var .listed),
    .declare "const auto" .name (.of ".find" [.var .entry, .text "\"name\""]),
    .when (.of "&&" [.of "!=" [.var .name, .of ".end" [.var .entry]],
      .of "->is_string" [.var .name],
      .of "==" [.of "->get<std::string>" [.var .name], .var .method]])
      (.text "return QVariant()"),
    .close,
    .expr (.of "return logos::nlohmannToQVariant" [.text "\"unknown_method\"",
      .of "+" [.text "\"unknown method '\"", .var .method, .text "\"'\""],
      .text (cppStringLiteral module.name)]),
    .close]

def builtInLidl (module : ModuleDecl) (lidlDocument : String) : List GlueStmt :=
  [.block (.of "if ==" [.var .methodName, .text "QStringLiteral(\"lidl\")"]),
    .block (.of "if !.isEmpty" [.var .args]),
    .declare "nlohmann::json" .err (.of "" [.text "\"invalid_args\"",
      .of "+" [.text "\"expected 0 arguments, got \"",
        .of "std::to_string" [.of ".size" [.var .args]]],
      .text (cppStringLiteral module.name)]),
    .expr (.of "return logos::nlohmannToQVariant" [.var .err]),
    .close,
    .expr (.of "return QString::fromUtf8" [.text (cppStringLiteral lidlDocument)]),
    .close]

def marshalArgs : List GlueStmt :=
  [.declare "nlohmann::json" .jArgs (.text "nlohmann::json::array()"),
    .forEach "const QVariant&" .a (.var .args),
    .expr (.of ".push_back" [.var .jArgs, .of "logos::qvariantToNlohmann" [.var .a]]),
    .close,
    .declare "const std::string" .dumped (.of ".dump" [.var .jArgs])]

def pullCaller : List GlueStmt :=
  [.declare "const std::string" .callerJson (.text "currentCallerJson()")]

def pushCaller : List GlueStmt := [.expr (.call .setCallCaller [.of ".c_str" [.var .callerJson]])]

def popCaller : List GlueStmt := [.expr (.call .setCallCaller [.text "nullptr"])]

def methodSet (names : List String) : GlueExpr :=
  .of "" (names.map fun n => .text ("QStringLiteral(\"" ++ n ++ "\")"))

def rejectedReply : GlueExpr :=
  .of "&&" [.of ".is_object" [.var .jResult], .of ".contains" [.var .jResult, .text "\"code\""],
    .of ".is_string" [.of "[\"code\"]" [.var .jResult]],
    .of "||" (["\"dispatch_failed\"", "\"invalid_args\"", "\"unknown_method\""].map fun code =>
      .of "==" [.of "[\"code\"]" [.var .jResult], .text code])]

def fillLogosResult : List GlueStmt :=
  [.declare "LogosResult" .lr (.text ""),
    .expr (.of "=" [.of ".success" [.var .lr],
      .of ".value" [.var .jResult, .text "\"success\"", .text "false"]]),
    .expr (.of "=" [.of ".value" [.var .lr], .of "logos::nlohmannToQVariant"
      [.of ".value" [.var .jResult, .text "\"value\"", .text "nlohmann::json()"]]]),
    .expr (.of "=" [.of ".error" [.var .lr], .of "? :"
      [.of ".contains" [.var .jResult, .text "\"error\""],
        .of ".is_string" [.of "[\"error\"]" [.var .jResult]],
        .of "QString::fromStdString" [.of "[\"error\"]" [.var .jResult]],
        .text "QVariant()"]])]

def voidReply (names : List String) : List GlueStmt :=
  if names.isEmpty then []
  else
    [.declare "static const QSet<QString>" .kVoidMethods (methodSet names),
      .block (.of "if .contains" [.var .kVoidMethods, .var .methodName]),
      .declare "const bool" .rejected rejectedReply,
      .expr (.of "return ? :" [.var .rejected, .of "logos::nlohmannToQVariant" [.var .jResult],
        .text "QVariant(true)"]),
      .close]

def resultReply (names : List String) : List GlueStmt :=
  if names.isEmpty then []
  else
    [.declare "static const QSet<QString>" .kResultMethods (methodSet names),
      .block (.of "if &&" [.of ".contains" [.var .kResultMethods, .var .methodName],
        .of ".is_object" [.var .jResult]])] ++ fillLogosResult ++
    [.expr (.of "return QVariant::fromValue" [.var .lr]),
      .close]

def parseReply : List GlueStmt :=
  [.declare "nlohmann::json" .jResult
      (.of "nlohmann::json::parse" [.var .result, .text "nullptr", .text "false"]),
    .expr (.call .stringFree [.var .result])]

def dispatchSingle : List GlueStmt :=
  [.declare "char*" .result (.call .dispatch [.of ".constData" [.of ".toUtf8" [.var .methodName]],
    .of ".c_str" [.var .dumped]])]

def callMethodHead (module : ModuleDecl) (lidlDocument : String) : List GlueStmt :=
  .method "QVariant callMethod" [.methodName, .args] ::
    (builtInLidl module lidlDocument ++ marshalArgs)

def checkReply : List GlueStmt :=
  .when (.of "!" [.var .result]) (.of "return lidlNullReply"
    [.of ".toStdString" [.var .methodName], .of ".isEmpty" [.var .args]]) ::
  (parseReply ++ [.when (.of ".is_discarded" [.var .jResult]) (.text "return QVariant()")])

def replySingle (module : ModuleDecl) : List GlueStmt :=
  checkReply ++ voidReply module.voidMethods ++ resultReply module.resultMethods ++
    [.expr (.of "return logos::nlohmannToQVariant" [.var .jResult]),
      .close]

def callMethodSingle (module : ModuleDecl) (lidlDocument : String) : List GlueLine :=
  plain (callMethodHead module lidlDocument) ++ guarded 6 (pullCaller ++ pushCaller) ++
    plain dispatchSingle ++ guarded 6 popCaller ++ plain (replySingle module)

def constructor (maxWorkers : Int) : List GlueStmt :=
  [.method "" [],
    .declare "const int" .configured (.text (toString maxWorkers)),
    .declare "const int" .workers (.of "> 0 ? :" [.var .configured, .var .configured,
      .text "qMax(1, QThread::idealThreadCount())"]),
    .expr (.of ".setMaxThreadCount" [.var .mWorkerPool, .var .workers]),
    .expr (.of ".setExpiryTimeout" [.var .mWorkerPool, .text "-1"]),
    .block (.of "if > 0" [.var .configured]),
    .declare "QSemaphore" .entered (.text ""),
    .declare "QSemaphore" .release (.text ""),
    .declare "QSemaphore" .finished (.text ""),
    .forEach "int" .i (.of "<" [.var .workers]),
    .closure (.of ".start" [.var .mWorkerPool]) [.entered, .release, .finished] [],
    .expr (.of ".release" [.var .entered]),
    .expr (.of ".acquire" [.var .release]),
    .expr (.of ".release" [.var .finished]),
    .close,
    .close,
    .expr (.of ".acquire" [.var .entered, .var .workers]),
    .expr (.of ".release" [.var .release, .var .workers]),
    .expr (.of ".acquire" [.var .finished, .var .workers]),
    .close,
    .close]

/-- The set of the methods of a kind, and whether the method called is one of them. -/
def methodFlag (set flag : GlueName) (names : List String) : List GlueStmt :=
  if names.isEmpty then []
  else
    [.declare "static const QSet<QString>" set (methodSet names),
      .declare "const bool" flag (.of ".contains" [.var set, .var .methodName])]

def resultFlag (names : List String) : List GlueStmt :=
  methodFlag .kResultMethods .isResultMethod names

def voidFlag (names : List String) : List GlueStmt :=
  methodFlag .kVoidMethods .isVoidMethod names

def workerCaptures (module : ModuleDecl) : List GlueName :=
  [.method, .dumped] ++ (if module.voidMethods.isEmpty then [] else [.isVoidMethod]) ++
    (if module.resultMethods.isEmpty then [] else [.isResultMethod]) ++
    [.callId, .eventCb, .callerJson]

def prepareMulti (module : ModuleDecl) : List GlueStmt :=
  [.declare "const std::string" .method (.of ".toStdString" [.var .methodName])] ++
    resultFlag module.resultMethods ++ voidFlag module.voidMethods ++
    ([.declare "const QString" .callId (.of "+" [.var .mCallIdPrefix, .of "QString::number"
        [.of ".fetch_add" [.var .mCallCounter, .text "1"]]]),
      .declare "EventCallback" .eventCb (.var .mEventCallback)] ++ pullCaller)

def dispatchMulti : List GlueStmt :=
  [.declare "char*" .result
    (.call .dispatch [.of ".c_str" [.var .method], .of ".c_str" [.var .dumped]])]

def voidValue (names : List String) : List GlueStmt :=
  if names.isEmpty then []
  else
    [.block (.of "if" [.var .isVoidMethod]),
      .declare "const bool" .rejected rejectedReply,
      .expr (.of "= ? :" [.var .value, .var .rejected,
        .of "logos::nlohmannToQVariant" [.var .jResult], .text "QVariant(true)"]),
      .close]

def ordinaryValue : List GlueStmt :=
  [.expr (.of "=" [.var .value, .of "logos::nlohmannToQVariant" [.var .jResult]]), .close]

def resultValue (names : List String) : List GlueStmt :=
  if names.isEmpty then .block (.text "") :: ordinaryValue
  else
    .block (.of "if &&" [.var .isResultMethod, .of ".is_object" [.var .jResult]]) ::
    (fillLogosResult ++
      [.expr (.of "=" [.var .value, .of "QVariant::fromValue" [.var .lr]]),
        .close,
        .block (.text "else")] ++ ordinaryValue)

def replyMulti (module : ModuleDecl) : List GlueStmt :=
  ([.declare "QVariant" .value (.text ""),
    .block (.of "if" [.var .result])] ++ parseReply ++
    [.block (.of "if !.is_discarded" [.var .jResult])]) ++
  voidValue module.voidMethods ++ resultValue module.resultMethods ++
  [.close,
    .close,
    .block (.text "else"),
    .expr (.of "=" [.var .value, .of "lidlNullReply"
      [.var .method, .of "==" [.var .dumped, .text "\"[]\""]]]),
    .close,
    .when (.var .eventCb) (.of "" [.var .eventCb, .text "logos::callCompleteEvent()",
      .of "QVariantList" [.var .callId, .var .value]])]

def workerBody (module : ModuleDecl) : List GlueLine :=
  guardedElse 6 pushCaller [.expr (.of "(void)" [.var .callerJson])] ++ plain dispatchMulti ++
    guarded 6 popCaller ++ plain (replyMulti module)

def startWorker (module : ModuleDecl) : List GlueStmt :=
  [.closure (.of ".start" [.var .mWorkerPool]) (workerCaptures module) []]

def answerPending : List GlueStmt :=
  [.close,
    .declare "QVariantMap" .pending (.text ""),
    .expr (.of "[logos::pendingCallKey()] =" [.var .pending, .var .callId]),
    .expr (.of "return" [.var .pending]),
    .close]

def callMethodMulti (module : ModuleDecl) (lidlDocument : String) : List GlueLine :=
  plain (callMethodHead module lidlDocument ++ prepareMulti module ++ startWorker module) ++
    workerBody module ++ plain answerPending

def callMethod (module : ModuleDecl) (lidlDocument : String) (multi : Bool) : List GlueLine :=
  if multi then callMethodMulti module lidlDocument else callMethodSingle module lidlDocument

def getMethods : List GlueStmt :=
  [.method "QJsonArray getMethods" [],
    .declare "char*" .json (.call .getMethods []),
    .declare "QJsonArray" .methods (.text ""),
    .block (.of "if" [.var .json]),
    .declare "QJsonDocument" .doc (.of "QJsonDocument::fromJson" [.of "QByteArray" [.var .json]]),
    .expr (.call .stringFree [.var .json]),
    .when (.of ".isArray" [.var .doc]) (.of "=" [.var .methods, .of ".array" [.var .doc]]),
    .close,
    .forEach "const QJsonValue&" .value (.var .methods),
    .when (.of "== QStringLiteral(\"lidl\")" [.of ".toObject" [.var .value]])
      (.of "return" [.var .methods]),
    .close,
    .declare "QJsonObject" .builtin (.text "")] ++
  (["name", "signature", "returnType", "isInvokable", "description", "parameters"].map
    fun key => .expr (.of "=" [.of key [.var .builtin]])) ++
  [.expr (.of ".append" [.var .methods, .var .builtin]),
    .expr (.of "return" [.var .methods]),
    .close]

def tokenArgs : List GlueExpr :=
  [.moduleName, .token].map fun x => .of ".constData" [.of ".toUtf8" [.var x]]

def informHost : List GlueStmt :=
  [.method "bool informModuleToken" [.moduleName, .token],
    .declare "const bool" .hostOk
      (.of "LogosProviderBase::informModuleToken" [.var .moduleName, .var .token])]

def informImage (door : ImplSymbol) : List GlueStmt :=
  [.declare "const bool" .implOk (.of "== 0" [.call door tokenArgs])]

def informAnswer : List GlueStmt :=
  [.expr (.of "return &&" [.var .hostOk, .var .implOk]), .close]

def informModuleToken : List GlueLine :=
  plain informHost ++ guardedElse 8 (informImage .acceptInboundToken) (informImage .acceptToken) ++
    plain informAnswer

def setEventListener : List GlueStmt :=
  [.method "void setEventListener" [.callback],
    .expr (.of "= std::move" [.var .mEventCallback, .var .callback]),
    .expr (.call .setEmitCallback [.text "emitTrampoline", .text "this"]),
    .close]

def emitTrampoline : List GlueStmt :=
  [.function "void emitTrampoline" [.eventName, .dataJson, .userData],
    .declare "auto*" .self (.of "static_cast" [.var .userData]),
    .when (.of "||" [.of "!" [.var .self], .of "!->m_eventCallback" [.var .self],
      .of "!" [.var .eventName]]) (.text "return"),
    .declare "nlohmann::json" .payload (.of "? :" [.var .dataJson,
      .of "nlohmann::json::parse" [.var .dataJson, .text "nullptr", .text "false"],
      .text "nlohmann::json::array()"]),
    .when (.of "||" [.of ".is_discarded" [.var .payload], .of "!.is_array" [.var .payload]])
      (.of "=" [.var .payload, .text "nlohmann::json::array()"]),
    .expr (.of "->m_eventCallback" [.var .self, .of "QString::fromUtf8" [.var .eventName],
      .of "logos::nlohmannArgsToQVariantList" [.var .payload]]),
    .close]

def property (name : String) : GlueExpr :=
  .of ".toUtf8().constData" [.of ".property" [.var .obj, .text name]]

def seedAuthToken (key : String) : GlueStmt :=
  .expr (.call .acceptToken [.text key, .of ".constData" [.of ".toUtf8" [.var .authToken]]])

def grantHostServices (module : ModuleDecl) : List GlueStmt :=
  [.declare "const QString" .hostServices (.of ".property" [.var .obj, .text "\"hostServices\""]),
    .block (.of "if !.isEmpty" [.var .hostServices]),
    .block (.of "if != 0"
      [.call .grantHostServices [.of ".constData" [.of ".toUtf8" [.var .hostServices]]]]),
    .expr (.of "qWarning <<" [.text ("\"[" ++ module.name ++ "] host services refused:\""),
      .var .hostServices]),
    .close,
    .close]

def seedTokens : List GlueStmt :=
  [.method "void onInit" [.api],
    .declare "QObject*" .obj (.var .api),
    .when (.of "!" [.var .obj]) (.text "return"),
    .declare "const QString" .authToken (.of ".property" [.var .obj, .text "\"authToken\""]),
    .block (.of "if !.isEmpty" [.var .authToken]),
    seedAuthToken "\"core\"",
    seedAuthToken "\"capability_module\"",
    .close]

def forwardContext : List GlueStmt :=
  [.expr (.call .setContext [property "\"modulePath\"", property "\"instanceId\"",
      property "\"instancePersistencePath\""]),
    .close]

def onInit (module : ModuleDecl) : List GlueLine :=
  plain seedTokens ++ guarded 3 (grantHostServices module) ++ plain forwardContext

def askModule : List GlueStmt :=
  [.closure (.call .setUnloadDoneCallback [.text "this"]) [] [.userData],
    .declare "auto*" .self (.of "static_cast" [.var .userData]),
    .expr (.of "QMetaObject::invokeMethod" [.var .self, .text "\"unloadFinished\"",
      .text "Qt::QueuedConnection"]),
    .close,
    .expr (.of "return" [.call .aboutToUnload []])]

def aboutToUnload : List GlueLine :=
  plain [.function "int aboutToUnload" []] ++
    guardedElse 5 askModule [.expr (.text "return 0")] ++ plain [.close]

end GlueSource

open GlueSource

def lidlMakeCdylibGlueSource (module : ModuleDecl) (lidlDocument : String) (multi : Bool)
    (maxWorkers : Int) : List GlueLine :=
  plain (lidlNullReply module) ++
    (if multi then plain (GlueSource.constructor maxWorkers) else []) ++
    callMethod module lidlDocument multi ++ plain GlueSource.getMethods ++
    GlueSource.informModuleToken ++ plain (GlueSource.setEventListener ++ emitTrampoline) ++
    onInit module ++ GlueSource.aboutToUnload

end LogosPluginQt
