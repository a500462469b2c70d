import LogosPluginQt.GlueSource

namespace LogosPluginQt
open EmittedSource GlueSource
set_option autoImplicit true

abbrev GlueScope := List (Frame GlueName)

def providerScope (multi : Bool) : GlueScope := [⟨providerMembers multi, false⟩]

@[simp] theorem methodSet_events (names : List String) : (methodSet names).events = [] := by
  apply Expr.argEvents_eq_nil
  intro e he
  obtain ⟨n, _, rfl⟩ := List.mem_map.1 he
  rfl

def headScope (multi : Bool) : GlueScope :=
  ⟨[.dumped, .jArgs, .args, .methodName], false⟩ :: providerScope multi

theorem callMethodHead_run (module : ModuleDecl) (lidlDocument : String) (multi : Bool) :
    run (providerScope multi) (events (callMethodHead module lidlDocument)) =
      some (headScope multi) := by
  cases multi <;> rfl

theorem voidReply_run {s : GlueScope} (hr : Sees .jResult s) (hm : Sees .methodName s)
    (names : List String) : run s (events (voidReply names)) =
      some (if names.isEmpty then s else declareName .kVoidMethods s) := by
  unfold voidReply
  cases names.isEmpty with
  | true => rfl
  | false => simp [rejectedReply, hr, hm]

theorem resultReply_run {s : GlueScope} (hr : Sees .jResult s) (hm : Sees .methodName s)
    (names : List String) : run s (events (resultReply names)) =
      some (if names.isEmpty then s else declareName .kResultMethods s) := by
  unfold resultReply
  cases names.isEmpty with
  | true => rfl
  | false => simp [fillLogosResult, hr, hm]

theorem methodFlag_run {s : GlueScope} (hm : Sees .methodName s) (set flag : GlueName)
    (names : List String) : run s (events (methodFlag set flag names)) =
      some (if names.isEmpty then s else declareName flag (declareName set s)) := by
  unfold methodFlag
  cases names.isEmpty with
  | true => rfl
  | false => simp [hm]

theorem voidValue_run {s : GlueScope} (hr : Sees .jResult s) (hv : Sees .value s)
    {names : List String} (hflag : names.isEmpty = false → Sees .isVoidMethod s) :
    run s (events (voidValue names)) = some s := by
  unfold voidValue
  cases hn : names.isEmpty with
  | true => rfl
  | false => simp [rejectedReply, hr, hv, hflag hn]

theorem resultValue_run {s : GlueScope} (hr : Sees .jResult s) (hv : Sees .value s)
    {names : List String} (hflag : names.isEmpty = false → Sees .isResultMethod s) :
    run s (events (resultValue names)) = some s := by
  unfold resultValue
  cases hn : names.isEmpty with
  | true => simp [ordinaryValue, hr, hv]
  | false => simp [ordinaryValue, fillLogosResult, hr, hv, hflag hn]

def repliedScope (pulled : Bool) : GlueScope :=
  ⟨.result :: ((if pulled then [.callerJson] else []) ++ [.dumped, .jArgs, .args, .methodName]),
    false⟩ :: providerScope false

theorem dispatchSingle_run (pulled : Bool) :
    run (headScope false) (events ((if pulled then pullCaller ++ pushCaller else []) ++
      dispatchSingle ++ if pulled then popCaller else [])) = some (repliedScope pulled) := by
  cases pulled <;> rfl

theorem replySingle_run (pulled : Bool) (module : ModuleDecl) :
    run (repliedScope pulled) (events (replySingle module)) = some (providerScope false) := by
  have hcheck : run (repliedScope pulled) (events checkReply) =
      some (declareName .jResult (repliedScope pulled)) := by
    cases pulled <;> rfl
  have hr : Sees .jResult (declareName .jResult (repliedScope pulled)) :=
    sees_declareName.2 (.inl rfl)
  have hm : Sees .methodName (declareName .jResult (repliedScope pulled)) := by
    cases pulled <;> decide
  have hvoid := run_events_append hcheck (voidReply_run hr hm module.voidMethods)
  have hresult := run_events_append hvoid
    (resultReply_run hr.ite_declareName hm.ite_declareName module.resultMethods)
  apply run_events_append hresult
  generalize module.voidMethods.isEmpty = noVoid
  generalize module.resultMethods.isEmpty = noResult
  cases noVoid <;> cases noResult <;> cases pulled <;> rfl

def preparedNames (module : ModuleDecl) : List GlueName :=
  [.callerJson, .eventCb, .callId] ++
    (if module.voidMethods.isEmpty then [] else [.isVoidMethod, .kVoidMethods]) ++
    (if module.resultMethods.isEmpty then [] else [.isResultMethod, .kResultMethods]) ++
    [.method, .dumped, .jArgs, .args, .methodName]

theorem prepareMulti_run (module : ModuleDecl) :
    run (headScope true) (events (prepareMulti module)) =
      some (⟨preparedNames module, false⟩ :: providerScope true) := by
  have hm : Sees .methodName (declareName .method (headScope true)) := by decide
  have hmethod : run (headScope true) (events [(.declare "const std::string" .method
      (.of ".toStdString" [.var .methodName]) : GlueStmt)]) =
      some (declareName .method (headScope true)) := rfl
  have hresult := run_events_append hmethod
    (methodFlag_run hm .kResultMethods .isResultMethod module.resultMethods)
  have hm' : Sees .methodName (if module.resultMethods.isEmpty then
      declareName .method (headScope true) else declareName .isResultMethod
        (declareName .kResultMethods (declareName .method (headScope true)))) := by
    cases module.resultMethods.isEmpty <;> decide
  have hvoid := run_events_append hresult
    (methodFlag_run hm' .kVoidMethods .isVoidMethod module.voidMethods)
  apply run_events_append hvoid
  unfold preparedNames
  generalize module.voidMethods.isEmpty = noVoid
  generalize module.resultMethods.isEmpty = noResult
  cases noVoid <;> cases noResult <;> rfl

theorem captures_prepared (module : ModuleDecl) :
    ∀ x ∈ workerCaptures module, x ∈ preparedNames module := by
  unfold workerCaptures preparedNames
  cases module.voidMethods.isEmpty <;> cases module.resultMethods.isEmpty <;> decide

theorem isVoidMethod_captured {module : ModuleDecl} (h : module.voidMethods.isEmpty = false) :
    .isVoidMethod ∈ workerCaptures module := by
  simp [workerCaptures, h]

theorem isResultMethod_captured {module : ModuleDecl}
    (h : module.resultMethods.isEmpty = false) : .isResultMethod ∈ workerCaptures module := by
  simp [workerCaptures, h]

section
variable (outer : GlueScope) (module : ModuleDecl)

def workerScope : GlueScope := ⟨workerCaptures module, true⟩ :: outer

theorem workerDispatch_run (pulled : Bool) :
    run (workerScope outer module) (events ((if pulled then pushCaller
        else [.expr (.of "(void)" [.var .callerJson])]) ++ dispatchMulti ++
      if pulled then popCaller else [])) =
      some (declareName .result (workerScope outer module)) := by
  cases pulled <;>
    simp [workerScope, workerCaptures, pushCaller, dispatchMulti, popCaller]

theorem replyMulti_run :
    run (declareName .result (workerScope outer module)) (events (replyMulti module)) =
      some (declareName .value (declareName .result (workerScope outer module))) := by
  let loop : GlueScope := ⟨[], false⟩ :: ⟨[.jResult], false⟩ ::
    ⟨.value :: .result :: workerCaptures module, true⟩ :: outer
  have hopen : run (declareName .result (workerScope outer module))
      (events ([.declare "QVariant" .value (.text ""),
        .block (.of "if" [.var .result])] ++ parseReply ++
        [.block (.of "if !.is_discarded" [.var .jResult])])) = some loop := by
    simp [workerScope, parseReply, loop]
  have hr : Sees .jResult loop := by simp [loop]
  have hv : Sees .value loop := by simp [loop]
  have hvoidFlag (hne : module.voidMethods.isEmpty = false) : Sees .isVoidMethod loop := by
    simp [loop, isVoidMethod_captured hne]
  have hresultFlag (hne : module.resultMethods.isEmpty = false) :
      Sees .isResultMethod loop := by
    simp [loop, isResultMethod_captured hne]
  have hvoid := run_events_append hopen (voidValue_run hr hv hvoidFlag)
  have hresult := run_events_append hvoid (resultValue_run hr hv hresultFlag)
  apply run_events_append hresult
  simp [loop, workerScope, workerCaptures]

def keptWorker (pulled : Bool) : List GlueStmt :=
  ((if pulled then pushCaller else [.expr (.of "(void)" [.var .callerJson])]) ++
    dispatchMulti ++ if pulled then popCaller else []) ++ replyMulti module

theorem keptWorker_run (pulled : Bool) :
    run (workerScope outer module) (events (keptWorker module pulled)) =
      some (declareName .value (declareName .result (workerScope outer module))) :=
  run_events_append (workerDispatch_run outer module pulled) (replyMulti_run outer module)

theorem workerBody_resolves (version : Nat × Nat) :
    Resolves (protocolGuard version) (workerBody module)
      (keptWorker module (protocolGuard version 6)) :=
  (((Resolves.guardedElse 6 _ _).append (.plain _)).append (.guarded 6 _)).append (.plain _)

def keptMulti (lidlDocument : String) (pulled : Bool) : List GlueStmt :=
  (callMethodHead module lidlDocument ++ prepareMulti module ++ startWorker module) ++
    keptWorker module pulled ++ answerPending

def preparedScope : GlueScope := ⟨preparedNames module, false⟩ :: providerScope true

theorem startWorker_run : run (preparedScope module) (events (startWorker module)) =
    some (workerScope (preparedScope module) module) := by
  have hpool : Sees .mWorkerPool (preparedScope module) := .inr ⟨rfl, .inl (by decide)⟩
  have hcaptures : ∀ x ∈ workerCaptures module, Sees x (preparedScope module) :=
    fun x hx => .inl (captures_prepared module x hx)
  simp only [startWorker, events_cons, events_nil, Stmt.events, Expr.events, Expr.argEvents,
    List.append_nil, List.singleton_append, List.map_nil, run, if_pos hpool, if_pos hcaptures]
  rfl

theorem answerPending_run (f : Frame GlueName) :
    run (f :: preparedScope module) (events answerPending) = some (providerScope true) := by
  have hid : .callId ∈ preparedNames module := by simp [preparedNames]
  simp [answerPending, preparedScope, hid]

theorem keptMulti_run (lidlDocument : String) (pulled : Bool) :
    run (providerScope true) (events (keptMulti module lidlDocument pulled)) =
      some (providerScope true) := by
  have hprepare := run_events_append (callMethodHead_run module lidlDocument true)
    (prepareMulti_run module)
  have hstart := run_events_append hprepare (startWorker_run module)
  have hworker := run_events_append hstart (keptWorker_run _ module pulled)
  exact run_events_append hworker (answerPending_run module _)

theorem callMethodMulti_resolves (lidlDocument : String) (version : Nat × Nat) :
    Resolves (protocolGuard version) (callMethodMulti module lidlDocument)
      (keptMulti module lidlDocument (protocolGuard version 6)) :=
  ((Resolves.plain _).append (workerBody_resolves module version)).append (.plain _)

end

def keptSingle (module : ModuleDecl) (lidlDocument : String) (pulled : Bool) : List GlueStmt :=
  callMethodHead module lidlDocument ++
    ((if pulled then pullCaller ++ pushCaller else []) ++ dispatchSingle ++
      if pulled then popCaller else []) ++ replySingle module

theorem keptSingle_run (module : ModuleDecl) (lidlDocument : String) (pulled : Bool) :
    run (providerScope false) (events (keptSingle module lidlDocument pulled)) =
      some (providerScope false) :=
  run_events_append
    (run_events_append (callMethodHead_run module lidlDocument false) (dispatchSingle_run pulled))
    (replySingle_run pulled module)

theorem callMethodSingle_resolves (module : ModuleDecl) (lidlDocument : String)
    (version : Nat × Nat) :
    Resolves (protocolGuard version) (callMethodSingle module lidlDocument)
      (keptSingle module lidlDocument (protocolGuard version 6)) := by
  have hreply : Resolves (protocolGuard version) (plain (replySingle module))
      (replySingle module) := .plain _
  have h := ((((Resolves.plain (callMethodHead module lidlDocument)).append
    (.guarded 6 (pullCaller ++ pushCaller))).append (.plain dispatchSingle)).append
    (.guarded 6 popCaller)).append hreply
  unfold keptSingle callMethodSingle
  simpa only [List.append_assoc] using h

theorem protocolGuard_iff {version : Nat × Nat} {minor : Nat} :
    protocolGuard version minor = true ↔ toLex (0, minor) ≤ toLex version := by
  rw [Prod.Lex.toLex_le_toLex, protocolGuard, Bool.or_eq_true, decide_eq_true_eq,
    Bool.and_eq_true, beq_iff_eq, decide_eq_true_eq, @eq_comm Nat version.1]

section
variable (module : ModuleDecl) (lidlDocument : String) (multi : Bool) (maxWorkers : Int)
  (version : Nat × Nat)

def keptCallMethod (pulled : Bool) : List GlueStmt :=
  if multi then keptMulti module lidlDocument pulled else keptSingle module lidlDocument pulled

theorem callMethod_resolves : Resolves (protocolGuard version)
    (GlueSource.callMethod module lidlDocument multi)
    (keptCallMethod module lidlDocument multi (protocolGuard version 6)) := by
  cases multi with
  | true => exact callMethodMulti_resolves module lidlDocument version
  | false => exact callMethodSingle_resolves module lidlDocument version

theorem keptCallMethod_run (pulled : Bool) :
    run (providerScope multi) (events (keptCallMethod module lidlDocument multi pulled)) =
      some (providerScope multi) := by
  cases multi with
  | true => exact keptMulti_run module lidlDocument pulled
  | false => exact keptSingle_run module lidlDocument pulled

def keptInformModuleToken (inbound : Bool) : List GlueStmt :=
  informHost ++ (if inbound then informImage .acceptInboundToken else informImage .acceptToken) ++
    informAnswer

theorem informModuleToken_resolves : Resolves (protocolGuard version)
    GlueSource.informModuleToken (keptInformModuleToken (protocolGuard version 8)) :=
  ((Resolves.plain _).append (.guardedElse 8 _ _)).append (.plain _)

def keptOnInit (granted : Bool) : List GlueStmt :=
  seedTokens ++ (if granted then grantHostServices module else []) ++ forwardContext

theorem onInit_resolves : Resolves (protocolGuard version) (onInit module)
    (keptOnInit module (protocolGuard version 3)) :=
  ((Resolves.plain _).append (.guarded 3 _)).append (.plain _)

def keptAboutToUnload (asked : Bool) : List GlueStmt :=
  [.function "int aboutToUnload" []] ++
    (if asked then askModule else [.expr (.text "return 0")]) ++ [.close]

theorem aboutToUnload_resolves : Resolves (protocolGuard version) GlueSource.aboutToUnload
    (keptAboutToUnload (protocolGuard version 5)) :=
  ((Resolves.plain _).append (.guardedElse 5 _ _)).append (.plain _)

def keptSource : List GlueStmt :=
  lidlNullReply module ++ (if multi then GlueSource.constructor maxWorkers else []) ++
    keptCallMethod module lidlDocument multi (protocolGuard version 6) ++ GlueSource.getMethods ++
    keptInformModuleToken (protocolGuard version 8) ++
    (GlueSource.setEventListener ++ emitTrampoline) ++
    keptOnInit module (protocolGuard version 3) ++ keptAboutToUnload (protocolGuard version 5)

theorem source_resolves : Resolves (protocolGuard version)
    (lidlMakeCdylibGlueSource module lidlDocument multi maxWorkers)
    (keptSource module lidlDocument multi maxWorkers version) := by
  have hconstructor : Resolves (protocolGuard version)
      (if multi then plain (GlueSource.constructor maxWorkers) else [])
      (if multi then GlueSource.constructor maxWorkers else []) := by
    cases multi with
    | true => exact .plain _
    | false => exact .plain []
  exact ((((((((Resolves.plain _).append hconstructor).append
    (callMethod_resolves module lidlDocument multi version)).append (.plain _)).append
    (informModuleToken_resolves version)).append (.plain _)).append
    (onInit_resolves module version)).append (aboutToUnload_resolves version))

variable {multi}

theorem lidlNullReply_run : run (providerScope multi) (events (lidlNullReply module)) =
    some (providerScope multi) := by
  cases multi <;> rfl

theorem constructor_run : run (providerScope multi)
    (events (if multi then GlueSource.constructor maxWorkers else [])) =
      some (providerScope multi) := by
  cases multi <;> rfl

theorem getMethods_run : run (providerScope multi) (events GlueSource.getMethods) =
    some (providerScope multi) := by
  cases multi <;> rfl

theorem keptInformModuleToken_run (inbound : Bool) :
    run (providerScope multi) (events (keptInformModuleToken inbound)) =
      some (providerScope multi) := by
  cases multi <;> cases inbound <;> rfl

theorem listener_run : run (providerScope multi)
    (events (GlueSource.setEventListener ++ emitTrampoline)) = some (providerScope multi) := by
  cases multi <;> rfl

theorem keptOnInit_run (granted : Bool) :
    run (providerScope multi) (events (keptOnInit module granted)) =
      some (providerScope multi) := by
  cases multi <;> cases granted <;> rfl

theorem keptAboutToUnload_run (asked : Bool) :
    run (providerScope multi) (events (keptAboutToUnload asked)) =
      some (providerScope multi) := by
  cases multi <;> cases asked <;> rfl

theorem keptSource_run : run (providerScope multi)
    (events (keptSource module lidlDocument multi maxWorkers version)) =
      some (providerScope multi) := by
  have hcall := run_events_append
    (run_events_append (lidlNullReply_run module) (constructor_run maxWorkers))
    (keptCallMethod_run module lidlDocument multi (protocolGuard version 6))
  have hinform := run_events_append (run_events_append hcall getMethods_run)
    (keptInformModuleToken_run (protocolGuard version 8))
  have hinit := run_events_append (run_events_append hinform listener_run)
    (keptOnInit_run module (protocolGuard version 3))
  exact run_events_append hinit (keptAboutToUnload_run (protocolGuard version 5))

end

theorem voidReply_calls (names : List String) : calls (events (voidReply names)) = [] := by
  unfold voidReply
  cases names.isEmpty with
  | true => rfl
  | false => simp [calls, rejectedReply]

theorem resultReply_calls (names : List String) : calls (events (resultReply names)) = [] := by
  unfold resultReply
  cases names.isEmpty with
  | true => rfl
  | false => simp [calls, fillLogosResult]

theorem methodFlag_calls (set flag : GlueName) (names : List String) :
    calls (events (methodFlag set flag names)) = [] := by
  unfold methodFlag
  cases names.isEmpty with
  | true => rfl
  | false => simp [calls]

theorem voidValue_calls (names : List String) : calls (events (voidValue names)) = [] := by
  unfold voidValue
  cases names.isEmpty <;> rfl

theorem resultValue_calls (names : List String) : calls (events (resultValue names)) = [] := by
  unfold resultValue
  cases names.isEmpty <;> rfl

section
variable (module : ModuleDecl) (lidlDocument : String) (multi : Bool) (maxWorkers : Int)
  (version : Nat × Nat)

def dispatchArgs : List GlueExpr :=
  if multi then [.of ".c_str" [.var .method], .of ".c_str" [.var .dumped]]
  else [.of ".constData" [.of ".toUtf8" [.var .methodName]], .of ".c_str" [.var .dumped]]

/-- The calls of `callMethod`: the dispatch, with what is told of the caller around it. -/
def callMethodCalls (pulled : Bool) : List (ImplSymbol × List GlueExpr) :=
  (if pulled then [(.setCallCaller, [.of ".c_str" [.var .callerJson]])] else []) ++
    [(.dispatch, dispatchArgs multi)] ++
    (if pulled then [(.setCallCaller, [.text "nullptr"])] else []) ++
    [(.stringFree, [.var .result])]

theorem callMethodHead_calls :
    calls (events (callMethodHead module lidlDocument)) = [] := rfl

theorem replySingle_calls :
    calls (events (replySingle module)) = [(.stringFree, [.var .result])] := by
  simp only [replySingle, events_append, calls_append, voidReply_calls, resultReply_calls]
  rfl

theorem keptSingle_calls (pulled : Bool) :
    calls (events (keptSingle module lidlDocument pulled)) = callMethodCalls false pulled := by
  rw [keptSingle, events_append, calls_append, replySingle_calls, events_append, calls_append,
    callMethodHead_calls]
  cases pulled <;> rfl

theorem prepareMulti_calls : calls (events (prepareMulti module)) = [] := by
  simp only [prepareMulti, resultFlag, voidFlag, events_append, calls_append, methodFlag_calls]
  rfl

theorem replyMulti_calls :
    calls (events (replyMulti module)) = [(.stringFree, [.var .result])] := by
  simp only [replyMulti, events_append, calls_append, voidValue_calls, resultValue_calls]
  rfl

theorem keptWorker_calls (pulled : Bool) :
    calls (events (keptWorker module pulled)) = callMethodCalls true pulled := by
  rw [keptWorker, events_append, calls_append, replyMulti_calls]
  cases pulled <;> rfl

theorem startWorker_calls : calls (events (startWorker module)) = [] := rfl

theorem keptMulti_calls (pulled : Bool) :
    calls (events (keptMulti module lidlDocument pulled)) = callMethodCalls true pulled := by
  simp only [keptMulti, events_append, calls_append, callMethodHead_calls, prepareMulti_calls,
    startWorker_calls, keptWorker_calls]
  cases pulled <;> rfl

theorem keptCallMethod_calls (pulled : Bool) :
    calls (events (keptCallMethod module lidlDocument multi pulled)) =
      callMethodCalls multi pulled := by
  cases multi with
  | true => exact keptMulti_calls module lidlDocument pulled
  | false => exact keptSingle_calls module lidlDocument pulled

def callIf (kept : Bool) (call : ImplSymbol) : List ImplSymbol :=
  if kept then [call] else []

def onInitCalls (granted : Bool) : List ImplSymbol :=
  .acceptToken :: .acceptToken :: callIf granted .grantHostServices ++ [.setContext]

def dispatchCalls (pulled : Bool) : List ImplSymbol :=
  callIf pulled .setCallCaller ++ .dispatch :: callIf pulled .setCallCaller ++ [.stringFree]

def unloadCalls (asked : Bool) : List ImplSymbol :=
  callIf asked .setUnloadDoneCallback ++ callIf asked .aboutToUnload

def inboundCall (inbound : Bool) : ImplSymbol :=
  if inbound then .acceptInboundToken else .acceptToken

def sourceCalls (granted asked pulled inbound : Bool) : List ImplSymbol :=
  [.getMethods, .stringFree] ++ dispatchCalls pulled ++ [.getMethods, .stringFree] ++
    [inboundCall inbound] ++ [.setEmitCallback] ++ onInitCalls granted ++ unloadCalls asked

theorem called_keptInformModuleToken (inbound : Bool) :
    called (keptInformModuleToken inbound) = [inboundCall inbound] := by
  cases inbound <;> rfl

theorem called_keptOnInit (granted : Bool) :
    called (keptOnInit module granted) = onInitCalls granted := by
  cases granted <;> rfl

theorem called_keptAboutToUnload (asked : Bool) :
    called (keptAboutToUnload asked) = unloadCalls asked := by
  cases asked <;> rfl

theorem called_keptCallMethod (pulled : Bool) :
    called (keptCallMethod module lidlDocument multi pulled) = dispatchCalls pulled := by
  rw [called, keptCallMethod_calls]
  cases pulled <;> rfl

theorem called_keptSource : called (keptSource module lidlDocument multi maxWorkers version) =
    sourceCalls (protocolGuard version 3) (protocolGuard version 5) (protocolGuard version 6)
      (protocolGuard version 8) := by
  have hnull : called (lidlNullReply module) = [.getMethods, .stringFree] := rfl
  have hconstructor :
      called (if multi then GlueSource.constructor maxWorkers else []) = [] := by
    cases multi <;> rfl
  have hmethods : called GlueSource.getMethods = [.getMethods, .stringFree] := rfl
  have hevents : called (GlueSource.setEventListener ++ emitTrampoline) = [.setEmitCallback] :=
    rfl
  rw [keptSource, called_append, called_append, called_append, called_append, called_append,
    called_append, called_append, hnull, hconstructor, called_keptCallMethod, hmethods,
    called_keptInformModuleToken, hevents, called_keptOnInit, called_keptAboutToUnload,
    List.append_nil, sourceCalls]

theorem ImplSymbol.introduced_zero {f : ImplSymbol} {since : Nat × Nat}
    (h : f.introduced = some since) : since = (0, since.2) := by
  cases f <;> cases h <;> rfl

theorem mem_sourceCalls_iff {f : ImplSymbol} {since : Nat × Nat}
    (h : f.introduced = some since) :
    f ∈ sourceCalls (protocolGuard version 3) (protocolGuard version 5)
        (protocolGuard version 6) (protocolGuard version 8) ↔
      protocolGuard version since.2 = true := by
  cases f <;> cases h
  all_goals cases protocolGuard version 8 <;>
    simp [sourceCalls, callIf, onInitCalls, dispatchCalls, unloadCalls, inboundCall]

inductive DispatchMark where
  | push | dispatch | pop
deriving DecidableEq

def dispatchMark : ImplSymbol × List GlueExpr → Option DispatchMark
  | (.setCallCaller, [.text "nullptr"]) => some .pop
  | (.setCallCaller, _) => some .push
  | (.dispatch, _) => some .dispatch
  | _ => none

def dispatchMarks (code : List GlueStmt) : List DispatchMark :=
  (calls (events code)).filterMap dispatchMark

theorem dispatchMarks_keptCallMethod (pulled : Bool) :
    dispatchMarks (keptCallMethod module lidlDocument multi pulled) =
      if pulled then [.push, .dispatch, .pop] else [.dispatch] := by
  rw [dispatchMarks, keptCallMethod_calls]
  cases pulled <;> rfl

/-- What is promised of the emitted source once the conditionals of a version are resolved. -/
structure SourceClosed : Prop where
  source : ∃ code, resolve (protocolGuard version) []
      (lidlMakeCdylibGlueSource module lidlDocument multi maxWorkers) = some code ∧
    WellScoped (providerScope multi) (events code) ∧
    ∀ f since, f.introduced = some since → (f ∈ called code ↔ toLex since ≤ toLex version)
  callMethod : ∃ code, resolve (protocolGuard version) []
      (GlueSource.callMethod module lidlDocument multi) = some code ∧
    WellScoped (providerScope multi) (events code) ∧
    (dispatchMarks code = [.push, .dispatch, .pop] ∨ dispatchMarks code = [.dispatch])
  worker : ∃ code, resolve (protocolGuard version) [] (workerBody module) = some code ∧
    ∀ before x after, events code = before ++ .read x :: after →
      x ∈ workerCaptures module ∨ .declare x ∈ before
  informModuleToken : ∃ code, resolve (protocolGuard version) [] GlueSource.informModuleToken =
      some code ∧
    (called code = [.acceptInboundToken] ∨ called code = [.acceptToken])

/-- The source is closed for every contract, in both concurrency settings and under every
version of the protocol. -/
theorem source_closed : SourceClosed module lidlDocument multi maxWorkers version where
  source := by
    refine ⟨_, (source_resolves module lidlDocument multi maxWorkers version).resolve,
      wellScoped_of_run (keptSource_run module lidlDocument maxWorkers version), ?_⟩
    intro f since hsince
    rw [called_keptSource, mem_sourceCalls_iff version hsince, ImplSymbol.introduced_zero hsince]
    exact protocolGuard_iff
  callMethod := by
    refine ⟨_, (callMethod_resolves module lidlDocument multi version).resolve,
      wellScoped_of_run (keptCallMethod_run module lidlDocument multi _), ?_⟩
    rw [dispatchMarks_keptCallMethod]
    cases protocolGuard version 6 with
    | true => exact .inl rfl
    | false => exact .inr rfl
  worker := by
    refine ⟨_, (workerBody_resolves module version).resolve, fun before x after he => ?_⟩
    have hrun := keptWorker_run [] module (protocolGuard version 6)
    rw [he] at hrun
    exact captured_or_declared hrun
  informModuleToken := by
    refine ⟨_, (informModuleToken_resolves version).resolve, ?_⟩
    rw [called_keptInformModuleToken]
    cases protocolGuard version 8 with
    | true => exact .inl rfl
    | false => exact .inr rfl

end

end LogosPluginQt
