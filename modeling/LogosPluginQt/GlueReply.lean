import LogosPluginQt.Glue

namespace LogosPluginQt
open Interleaving Glue
set_option autoImplicit true

/-- How a provider says no: an object with one of the closed set of codes. -/
def Refusal (j : Json) : Prop :=
  j.isObject = true ∧ ∃ code, j.find? "code" = some (.string code) ∧
    (code = "dispatch_failed" ∨ code = "invalid_args" ∨ code = "unknown_method")

theorem rejected_iff {j : Json} : rejected j = true ↔ Refusal j := by
  unfold rejected Refusal
  rw [Bool.and_eq_true]
  refine and_congr_right fun _ => ?_
  constructor
  · intro h
    split at h
    next code hcode =>
      refine ⟨code, hcode, ?_⟩
      simpa only [Bool.or_eq_true, decide_eq_true_eq, or_assoc] using h
    next => cases h
  · rintro ⟨code, hcode, h⟩
    rw [hcode]
    simpa only [Bool.or_eq_true, decide_eq_true_eq, or_assoc] using h

section
variable (h : GlueHost) (p : Nat)

/-- The value of a reply once it has arrived and parsed, whichever branch reads it. -/
def replyValue (methodName : String) (j : Json) : Except ReplyError QVariant :=
  let m := (h.provider p).module
  if methodName ∈ m.voidMethods then
    .ok (if rejected j then h.codec.nlohmannToQVariant j else .bool true)
  else if methodName ∈ m.resultMethods ∧ j.isObject = true then toLogosResult h j
  else .ok (h.codec.nlohmannToQVariant j)

def replyOf (methodName : String) (noArgs : Bool) :
    Option (List UInt8) → GlueProg (Except ReplyError QVariant)
  | none => do
    let value ← lidlNullReply h p methodName noArgs
    return .ok value
  | some text =>
    match h.codec.parse text with
    | none => return .ok .invalid
    | some j => return replyValue h p methodName j

variable {h p} {methodName : String} {args : List QVariant}

/-- An arm that is not emitted would not have been taken. -/
theorem isEmpty_and_contains {methods : List String} :
    (!methods.isEmpty && methods.contains methodName) = true ↔ methodName ∈ methods := by
  cases methods with
  | nil => simp only [List.isEmpty_nil, Bool.not_true, Bool.false_and, Bool.false_eq_true,
      List.not_mem_nil]
  | cons m methods =>
    simp only [List.isEmpty_cons, Bool.not_false, Bool.true_and, List.contains_iff_mem]

theorem emitted_arm {α : Type} {methods : List String} {taken : Bool}
    (ht : taken = true → methodName ∈ methods) (x y : α) :
    (if (!methods.isEmpty) = true then if taken = true then x else y else y) =
      if taken = true then x else y := by
  cases methods with
  | nil =>
    have hnot : ¬ taken = true := fun h => List.not_mem_nil (ht h)
    simp only [List.isEmpty_nil, Bool.not_true, Bool.false_eq_true, ↓reduceIte, if_neg hnot]
  | cons m methods => rfl

theorem singleReply_eq (result : Option (List UInt8)) :
    singleReply h p methodName args result = replyOf h p methodName args.isEmpty result := by
  cases result with
  | none => rfl
  | some text =>
    simp only [singleReply, replyOf]
    cases h.codec.parse text with
    | none => rfl
    | some j =>
      simp only [← Bool.and_assoc, Bool.and_eq_true (b := j.isObject), isEmpty_and_contains,
        replyValue]
      split
      · rfl
      · split <;> rfl

theorem dumped_empty_iff : (dumpArgs h args = "[]") = (args = []) := by
  rw [dumpArgs, h.codec.dump_array, List.map_eq_nil_iff]

theorem workerReply_eq (call : Nat) (callId : String) (eventCb : Option Nat)
    (callerJson : String) (result : Option (List UInt8)) :
    workerReply h p (makeTask h p call methodName args callId eventCb callerJson) result =
      replyOf h p methodName args.isEmpty result := by
  cases result with
  | none =>
    have hnil : decide (dumpArgs h args = "[]") = args.isEmpty := by
      simp only [dumped_empty_iff]
      cases args <;> rfl
    exact congrArg (fun noArgs => (do
      let value ← lidlNullReply h p methodName noArgs
      return .ok value : GlueProg (Except ReplyError QVariant))) hnil
  | some text =>
    dsimp only [workerReply, replyOf, makeTask]
    cases h.codec.parse text with
    | none => rfl
    | some j =>
      have hvoid {methods : List String} (ht : methods.contains methodName = true) :
          methodName ∈ methods := List.contains_iff_mem.1 ht
      have hresult {methods : List String}
          (ht : (methods.contains methodName && j.isObject) = true) : methodName ∈ methods :=
        hvoid (Bool.and_eq_true_iff.1 ht).1
      dsimp only
      rw [emitted_arm hvoid, emitted_arm hresult]
      simp only [replyValue, List.contains_iff_mem, Bool.and_eq_true]
      split <;> rfl

/-- The worker and the single branch read every answer of the C ABI alike, down to the
question they ask back; and `lidl()` is answered by both without a dispatch. -/
theorem single_multi_agree (h : GlueHost) (p call : Nat) (callId : String)
    (eventCb : Option Nat) (callerJson : String) :
    (∀ methodName args result,
      workerReply h p (makeTask h p call methodName args callId eventCb callerJson) result =
        singleReply h p methodName args result) ∧
    ∀ args, callMethodSingle h p call "lidl" args = .ret (.ok (builtInLidl h p args)) ∧
      callMethodMulti h p call "lidl" args = .ret (.ok (builtInLidl h p args)) := by
  refine ⟨fun methodName args result => ?_, fun args => ⟨rfl, rfl⟩⟩
  rw [workerReply_eq, singleReply_eq]

variable (h) in
def Delivered (reply : GlueProg (Except ReplyError QVariant)) (j : Json) : Prop :=
  reply = .ret (.ok (h.codec.nlohmannToQVariant j)) ∧
    ∀ key ∈ ["code", "message", "origin"],
      (h.codec.nlohmannToQVariant j).field? key = (j.find? key).map h.codec.nlohmannToQVariant

theorem Refusal.fields {j : Json} (hj : Refusal j) :
    ∃ fields, j = .object fields ∧ ¬ BytesObject fields := by
  obtain ⟨hobject, code, hcode, _⟩ := hj
  cases j with
  | object fields => exact ⟨fields, rfl, not_bytesObject hcode⟩
  | _ => cases hobject

/-- A `LogosResult` is never the converted refusal: nothing of the refusal is in it. -/
theorem toLogosResult_ne {j : Json} (hj : Refusal j) :
    toLogosResult h j ≠ .ok (h.codec.nlohmannToQVariant j) := by
  obtain ⟨fields, rfl, hf⟩ := hj.fields
  rw [h.codec.toQVariant_object fields hf]
  intro he
  unfold toLogosResult at he
  cases hs : boolValue (.object fields) "success" with
  | error e =>
    rw [hs] at he
    cases he
  | ok success =>
    rw [hs] at he
    cases he

theorem replyValue_refusal_iff {j : Json} (hj : Refusal j) :
    replyValue h p methodName j = .ok (h.codec.nlohmannToQVariant j) ↔
      methodName ∈ (h.provider p).module.voidMethods ∨
        methodName ∉ (h.provider p).module.resultMethods := by
  unfold replyValue
  by_cases hv : methodName ∈ (h.provider p).module.voidMethods
  · simp only [hv, ↓reduceIte, rejected_iff.2 hj, true_or]
  · by_cases hr : methodName ∈ (h.provider p).module.resultMethods
    · simp only [hv, hr, hj.1, and_self, ↓reduceIte, toLogosResult_ne hj, not_true_eq_false,
        or_self]
    · simp only [hv, hr, false_and, ↓reduceIte, not_false_eq_true, or_true]

theorem delivered_replyOf_iff {noArgs : Bool} {text : List UInt8} {j : Json}
    (hp : h.codec.parse text = some j) (hj : Refusal j) :
    Delivered h (replyOf h p methodName noArgs (some text)) j ↔
      methodName ∈ (h.provider p).module.voidMethods ∨
        methodName ∉ (h.provider p).module.resultMethods := by
  have hfields : ∀ key ∈ ["code", "message", "origin"],
      (h.codec.nlohmannToQVariant j).field? key =
        (j.find? key).map h.codec.nlohmannToQVariant := by
    obtain ⟨fields, rfl, hf⟩ := hj.fields
    exact fun key _ => h.codec.field_toQVariant hf key
  rw [← replyValue_refusal_iff hj, Delivered, and_iff_left hfields]
  simp only [replyOf, hp, Prog.pure_eq, Prog.ret.injEq]

/-- A provider's refusal reaches the caller exactly when the method is void or returns no
`LogosResult`: only the void arm looks for one before it re-materialises a reply. -/
theorem refusal_delivered_iff {text : List UInt8} {j : Json} (call : Nat) (callId : String)
    (eventCb : Option Nat) (callerJson : String) (hp : h.codec.parse text = some j)
    (hj : Refusal j) :
    (Delivered h (singleReply h p methodName args (some text)) j ↔
      methodName ∈ (h.provider p).module.voidMethods ∨
        methodName ∉ (h.provider p).module.resultMethods) ∧
    (Delivered h (workerReply h p (makeTask h p call methodName args callId eventCb callerJson)
        (some text)) j ↔
      methodName ∈ (h.provider p).module.voidMethods ∨
        methodName ∉ (h.provider p).module.resultMethods) := by
  rw [workerReply_eq, singleReply_eq]
  exact ⟨delivered_replyOf_iff hp hj, delivered_replyOf_iff hp hj⟩

def Answers (reply : GlueProg (Except ReplyError QVariant)) : Prop :=
  reply.Returns fun value => ∃ v, value = .ok v

variable (h) in
/-- Where the reply is an object with a `success`, that is a Boolean. -/
def SuccessReadable (result : Option (List UInt8)) : Prop :=
  ∀ text j, result = some text → h.codec.parse text = some j →
    ∀ v, j.find? "success" = some v → ∃ b, v = .bool b

theorem boolValue_ok_iff {j : Json} {key : String} :
    (∃ b, boolValue j key = .ok b) ↔ ∀ v, j.find? key = some v → ∃ b, v = .bool b := by
  unfold boolValue
  cases j.find? key with
  | none => exact iff_of_true ⟨false, rfl⟩ nofun
  | some v =>
    cases v with
    | bool b =>
      refine iff_of_true ⟨b, rfl⟩ ?_
      rintro v' hv
      exact ⟨b, (Option.some.inj hv).symm⟩
    | null | int | float | string | array | object =>
      refine iff_of_false nofun ?_
      intro hall
      obtain ⟨b, hb⟩ := hall _ rfl
      cases hb

theorem toLogosResult_ok_iff {j : Json} :
    (∃ v, toLogosResult h j = .ok v) ↔
      ∀ v, j.find? "success" = some v → ∃ b, v = .bool b := by
  rw [← boolValue_ok_iff]
  unfold toLogosResult
  cases boolValue j "success" with
  | error e => exact iff_of_false nofun nofun
  | ok success => exact iff_of_true ⟨_, rfl⟩ ⟨success, rfl⟩

theorem replyValue_ok_iff {j : Json} :
    (∃ v, replyValue h p methodName j = .ok v) ↔
      methodName ∈ (h.provider p).module.voidMethods ∨
        methodName ∉ (h.provider p).module.resultMethods ∨
          ∀ v, j.find? "success" = some v → ∃ b, v = .bool b := by
  unfold replyValue
  by_cases hv : methodName ∈ (h.provider p).module.voidMethods
  · simp only [hv, ↓reduceIte, Except.ok.injEq, exists_eq', true_or]
  · by_cases hr : methodName ∈ (h.provider p).module.resultMethods
    · simp only [hv, hr, true_and, ↓reduceIte, not_true_eq_false, false_or]
      cases j with
      | object fields => exact toLogosResult_ok_iff
      | null | bool | int | float | string | array => exact iff_of_true ⟨_, rfl⟩ nofun
    · simp only [hv, hr, false_and, ↓reduceIte, Except.ok.injEq, exists_eq', not_false_eq_true,
        true_or, or_true]

theorem answers_replyOf_iff {noArgs : Bool} {result : Option (List UInt8)} :
    Answers (replyOf h p methodName noArgs result) ↔
      methodName ∈ (h.provider p).module.voidMethods ∨
        methodName ∉ (h.provider p).module.resultMethods ∨ SuccessReadable h result := by
  cases result with
  | none =>
    refine iff_of_true ?_ (.inr (.inr nofun))
    exact Prog.returns_bind.2 (Prog.returns_of_forall (fun value => ⟨value, rfl⟩) _)
  | some text =>
    have hreadable : SuccessReadable h (some text) ↔ ∀ j, h.codec.parse text = some j →
        ∀ v, j.find? "success" = some v → ∃ b, v = .bool b := by
      constructor
      · intro hall j hj
        exact hall text j rfl hj
      · intro hall text' j he hj
        obtain rfl := Option.some.inj he
        exact hall j hj
    rw [hreadable, replyOf]
    cases h.codec.parse text with
    | none => exact iff_of_true ⟨.invalid, rfl⟩ (.inr (.inr nofun))
    | some j =>
      simp only [Option.some.injEq, forall_eq', ← replyValue_ok_iff]
      rfl

/-- Reply handling throws on no reply exactly when the method is not one whose reply is
re-materialised, or the `success` of the reply can be read. -/
theorem answers_iff (h : GlueHost) (p call : Nat) (methodName : String) (args : List QVariant)
    (callId : String) (eventCb : Option Nat) (callerJson : String)
    (result : Option (List UInt8)) :
    (Answers (singleReply h p methodName args result) ↔
      methodName ∈ (h.provider p).module.voidMethods ∨
        methodName ∉ (h.provider p).module.resultMethods ∨ SuccessReadable h result) ∧
    (Answers (workerReply h p (makeTask h p call methodName args callId eventCb callerJson)
        result) ↔
      methodName ∈ (h.provider p).module.voidMethods ∨
        methodName ∉ (h.provider p).module.resultMethods ∨ SuccessReadable h result) := by
  rw [workerReply_eq, singleReply_eq]
  exact ⟨answers_replyOf_iff, answers_replyOf_iff⟩

end

def refusalText : List UInt8 :=
  "\x7b\"code\":\"invalid_args\",\"message\":\"bad\",\"origin\":\"m\"\x7d".toUTF8.toList

def refusalJson : Json :=
  .object [("code", .string "invalid_args"), ("message", .string "bad"), ("origin", .string "m")]

/-- A process whose modules have a void method `run` and a result method `query`. -/
def plainHost (multi : Bool) : GlueHost where
  codec := .plain [(refusalText, refusalJson)]
  protocolVersion := (0, 8)
  callerUnknownJson := ⟨"\x7b\"kind\":\"unknown\"\x7d", by decide, by decide⟩
  pendingCallKey := "_pending"
  idealThreadCount := 4
  hostHasInvokable := true
  provider p :=
    { module := ⟨"m", [⟨"run", false, none⟩, ⟨"query", true, none⟩]⟩
      lidlDocument := "module m"
      multi := multi
      maxWorkers := 2
      uuid := ⟨String.ofList (List.replicate 32 (if p = 0 then '0' else '1')), by simp⟩
      hasLogosAPI := true }
  image p := p

theorem refusalJson_refusal : Refusal refusalJson :=
  ⟨rfl, "invalid_args", rfl, .inr (.inl rfl)⟩

theorem parse_refusalText (multi : Bool) :
    (plainHost multi).codec.parse refusalText = some refusalJson := by
  simp only [plainHost, JsonCodec.plain, List.find?_cons, decide_true, Option.map_some]

theorem refusal_delivered_iff_void :
    Delivered (plainHost false) (singleReply (plainHost false) 0 "run" [] (some refusalText))
      refusalJson :=
  (refusal_delivered_iff 0 "" none "" (parse_refusalText false) refusalJson_refusal).1.2
    (.inl (by decide))

/-- A result method turns the refusal into a `LogosResult` that has lost it. -/
theorem refusal_lost_by_result_method :
    ¬ Delivered (plainHost false)
        (singleReply (plainHost false) 0 "query" [] (some refusalText)) refusalJson ∧
      ¬ Delivered (plainHost true) (workerReply (plainHost true) 0
        (makeTask (plainHost true) 0 0 "query" [] "id" none "") (some refusalText))
        refusalJson := by
  constructor
  · rw [singleReply_eq, delivered_replyOf_iff (parse_refusalText false) refusalJson_refusal]
    decide
  · rw [workerReply_eq, delivered_replyOf_iff (parse_refusalText true) refusalJson_refusal]
    decide

def countText : List UInt8 := "\x7b\"success\":1\x7d".toUTF8.toList

/-- A process as above, in which the module replies with a number for `success`. -/
def countHost (multi : Bool) : GlueHost :=
  { plainHost multi with codec := .plain [(countText, .object [("success", .int 1)])] }

/-- The result arm throws, on the thread of the call or out of the worker. -/
theorem count_reply_throws :
    ¬ Answers (singleReply (countHost false) 0 "query" [] (some countText)) ∧
      ¬ Answers (workerReply (countHost true) 0
        (makeTask (countHost true) 0 0 "query" [] "id" none "") (some countText)) := by
  have hunreadable (multi : Bool) : ¬ SuccessReadable (countHost multi) (some countText) := by
    intro hreadable
    have hparse : (countHost multi).codec.parse countText =
        some (.object [("success", .int 1)]) := by
      simp only [countHost, JsonCodec.plain, List.find?_cons, decide_true, Option.map_some]
    obtain ⟨b, hb⟩ := hreadable countText _ rfl hparse (.int 1) rfl
    cases hb
  constructor
  · rw [singleReply_eq, answers_replyOf_iff]
    rintro (hv | hr | hreadable)
    · exact absurd hv (by decide)
    · exact hr (by decide)
    · exact hunreadable false hreadable
  · rw [workerReply_eq, answers_replyOf_iff]
    rintro (hv | hr | hreadable)
    · exact absurd hv (by decide)
    · exact hr (by decide)
    · exact hunreadable true hreadable

end LogosPluginQt
