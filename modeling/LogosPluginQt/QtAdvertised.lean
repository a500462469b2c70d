import LogosPluginQt.QtAcceptance

namespace LogosPluginQt
open Interleaving QtProviderObject
set_option autoImplicit true

/-- `getMethods` has an entry for the method at `index`, and marks it invokable. -/
def Advertised (object : WrappedObject) (index : Nat) : Prop :=
  ∃ (p : Nat) (m : MetaMethod) (entry : Json), (listed object)[p]? = some (m, index) ∧
    (getMethods object)[p]? = some entry ∧ entry.find? "isInvokable" = some (.bool true)

/-- The call passes the guards of `callMethod` and is decoded for the method `m`. -/
def LooksUp (object : WrappedObject) (methodName : String) (args : List QVariant)
    (m : MetaMethod) : Prop :=
  (∃ pluginInterface, object.pluginInterface = some pluginInterface ∧
    pluginInterface.hasLogosAPI = true) ∧
  (args = [] → methodName ∉ frameworkNames) ∧
  ∃ index, methodIndex object methodName args = some index ∧ object.methods[index]? = some m

/-- The call gets as far as Qt's lookup, by the types its arguments are passed on with and
the return type of the method it was decoded for, and the lookup selects the method at
`index`. -/
def Selects (q : QtLib) (object : WrappedObject) (methodName : String) (args : List QVariant)
    (index : Nat) : Prop :=
  ∃ m decoded, LooksUp object methodName args m ∧
    QtProviderObject.coerceArgs q 0 args m.parameterMetaTypes = .ok decoded ∧
    decoded.length ≤ 5 ∧
    (m.returnMetaType = .void ∨ (returnTypeName m.returnMetaType).isSome = true) ∧
    q.resolve object.methods methodName
      ((decoded.map (toScopedQArg q)).map QVariant.metaType)
      (returnTypeArg m.returnMetaType) = some index

section
variable {q : QtLib} {object : WrappedObject} {methodName : String} {args : List QVariant}
  {index : Nat}

theorem methodObj_isInvokable {m : MetaMethod} :
    (methodObj m).find? "isInvokable" =
      some (.bool (m.methodType = .method || m.methodType = .slot)) := rfl

theorem mem_listed {m : MetaMethod} :
    (m, index) ∈ listed object ↔
      object.methods[index]? = some m ∧ m.enclosedByClass = true := by
  rw [listed, List.mem_filter, List.mem_zipIdx_iff_getElem?]

theorem advertised_iff :
    Advertised object index ↔ ∃ m, object.methods[index]? = some m ∧
      m.enclosedByClass = true ∧ (m.methodType = .method ∨ m.methodType = .slot) := by
  constructor
  · rintro ⟨p, m, entry, hlisted, hentry, hinvokable⟩
    obtain ⟨hm, hown⟩ := mem_listed.1 (List.mem_of_getElem? hlisted)
    rw [getMethods, List.getElem?_map, hlisted] at hentry
    obtain rfl := Option.some.inj hentry
    rw [methodObj_isInvokable] at hinvokable
    have htype := Json.bool.inj (Option.some.inj hinvokable)
    rw [Bool.or_eq_true, decide_eq_true_eq, decide_eq_true_eq] at htype
    exact ⟨m, hm, hown, htype⟩
  · rintro ⟨m, hm, hown, htype⟩
    obtain ⟨p, hp⟩ := List.getElem?_of_mem (mem_listed.2 ⟨hm, hown⟩)
    refine ⟨p, m, methodObj m, hp, ?_, ?_⟩
    · rw [getMethods, List.getElem?_map, hp]
      rfl
    · rw [methodObj_isInvokable]
      rcases htype with h | h <;> simp only [h] <;> rfl

theorem invokeMethod_performs {returnArg : Option MetaType} {passed : List QVariant} :
    (invokeMethod q object methodName returnArg args).Performs (.invoke index passed) ↔
      q.resolve object.methods methodName (args.map QVariant.metaType) returnArg =
        some index ∧ passed = args := by
  unfold invokeMethod
  cases q.resolve object.methods methodName (args.map QVariant.metaType) returnArg with
  | none => exact iff_of_false Prog.not_performs_ret nofun
  | some found =>
    rw [Prog.performs_act, QtAction.invoke.injEq, Option.some.injEq, eq_comm (a := found)]
    constructor
    · rintro (h | ⟨_, h⟩)
      · exact h
      · exact absurd h Prog.not_performs_ret
    · exact .inl

theorem callByReturnType_stops {returnType : MetaType} (h : ¬ (args.length ≤ 5 ∧
      (returnType = .void ∨ (returnTypeName returnType).isSome = true))) :
    callByReturnType q object methodName args returnType = .ret .invalid := by
  by_cases hlength : args.length ≤ 5
  · have hreturn := not_or.1 fun hr => h ⟨hlength, hr⟩
    have hname := Option.not_isSome_iff_eq_none.1 hreturn.2
    simp only [callByReturnType, if_neg hreturn.1, hname, Prog.pure_eq]
  · unfold callByReturnType
    by_cases hvoid : returnType = .void
    · simp only [hvoid, ↓reduceIte, invokeMethodByArgCount, hlength, Prog.pure_eq,
        Prog.ret_bind]
      rfl
    · rw [if_neg hvoid]
      cases hname : returnTypeName returnType with
      | none => rfl
      | some name =>
        simp only [invokeMethodByArgCount, returnArg_of_name hname, hlength, ↓reduceIte,
          Prog.pure_eq, Prog.ret_bind]
        rfl

theorem callByReturnType_performs {returnType : MetaType} {passed : List QVariant} :
    (callByReturnType q object methodName args returnType).Performs (.invoke index passed) ↔
      args.length ≤ 5 ∧
      (returnType = .void ∨ (returnTypeName returnType).isSome = true) ∧
      q.resolve object.methods methodName ((args.map (toScopedQArg q)).map QVariant.metaType)
        (returnTypeArg returnType) = some index ∧ passed = args.map (toScopedQArg q) := by
  by_cases hgets : args.length ≤ 5 ∧
    (returnType = .void ∨ (returnTypeName returnType).isSome = true)
  · rw [callByReturnType_invokes hgets.1 hgets.2, Prog.performs_bind_ret, invokeMethod_performs,
      and_iff_right hgets.1, and_iff_right hgets.2]
  · rw [callByReturnType_stops hgets, ← and_assoc]
    exact iff_of_false Prog.not_performs_ret fun h => hgets h.1

theorem LooksUp.callMethod {m : MetaMethod} (h : LooksUp object methodName args m) :
    callMethod q (some object) methodName args =
      match QtProviderObject.coerceArgs q 0 args m.parameterMetaTypes with
      | .error reason => .ret (dispatchFailedVariant (providerName object) reason)
      | .ok coercedArgs =>
        callByReturnType q object methodName coercedArgs m.returnMetaType := by
  obtain ⟨⟨_, hplugin, hapi⟩, hfree, _, hindex, hm⟩ := h
  exact callMethod_eq hplugin hapi hfree hindex hm

theorem callMethod_stops (h : ∀ m, ¬ LooksUp object methodName args m) :
    ∃ answer, callMethod q (some object) methodName args = .ret answer := by
  unfold callMethod
  dsimp only
  split_ifs with hempty hmethods hevents hinterface
  · exact ⟨_, rfl⟩
  · exact ⟨_, rfl⟩
  · exact ⟨_, rfl⟩
  · exact ⟨_, rfl⟩
  · cases hplugin : object.pluginInterface with
    | none => exact ⟨_, rfl⟩
    | some pluginInterface =>
      cases hapi : pluginInterface.hasLogosAPI with
      | false =>
        refine ⟨.invalid, ?_⟩
        simp only [hapi, Bool.not_false, ↓reduceIte, Prog.pure_eq]
      | true =>
        cases hindex : methodIndex object methodName args with
        | none =>
          refine ⟨methodNotFound object methodName args, ?_⟩
          simp only [hapi, Bool.not_true, Bool.false_eq_true, ↓reduceIte, Prog.pure_eq]
        | some index =>
          obtain ⟨m, hm, _⟩ := methodIndex_spec hindex
          have hfree : args = [] → methodName ∉ frameworkNames := by
            rintro rfl
            simp_all [frameworkNames]
          exact absurd ⟨⟨_, hplugin, hapi⟩, hfree, index, hindex, hm⟩ (h m)

theorem callMethod_performs :
    (∃ passed, (callMethod q (some object) methodName args).Performs (.invoke index passed)) ↔
      Selects q object methodName args index := by
  constructor
  · rintro ⟨passed, h⟩
    by_cases hlooks : ∃ m, LooksUp object methodName args m
    · obtain ⟨m, hm⟩ := hlooks
      rw [hm.callMethod] at h
      cases hcoerced : QtProviderObject.coerceArgs q 0 args m.parameterMetaTypes with
      | error reason =>
        rw [hcoerced] at h
        exact absurd h Prog.not_performs_ret
      | ok decoded =>
        rw [hcoerced] at h
        obtain ⟨hlength, hreturn, hresolve, _⟩ := callByReturnType_performs.1 h
        exact ⟨m, decoded, hm, hcoerced, hlength, hreturn, hresolve⟩
    · obtain ⟨answer, ha⟩ := callMethod_stops (q := q) (not_exists.1 hlooks)
      rw [ha] at h
      exact absurd h Prog.not_performs_ret
  · rintro ⟨m, decoded, hm, hcoerced, hlength, hreturn, hresolve⟩
    refine ⟨decoded.map (toScopedQArg q), ?_⟩
    rw [hm.callMethod, hcoerced]
    exact callByReturnType_performs.2 ⟨hlength, hreturn, hresolve, rfl⟩

/-- A call runs nothing but what the listing advertises exactly when the method that Qt's
lookup selects for it, if the call gets that far, is one the class itself declares, and
neither a signal nor a constructor. -/
theorem invoked_advertised_iff :
    (∀ index passed, (callMethod q (some object) methodName args).Performs
        (.invoke index passed) → Advertised object index) ↔
      ∀ index, Selects q object methodName args index →
        ∃ m, object.methods[index]? = some m ∧ m.enclosedByClass = true ∧
          (m.methodType = .method ∨ m.methodType = .slot) := by
  constructor
  · intro h index hselects
    obtain ⟨passed, hperforms⟩ := callMethod_performs.2 hselects
    exact advertised_iff.1 (h index passed hperforms)
  · intro h index passed hperforms
    exact advertised_iff.2 (h index (callMethod_performs.1 ⟨passed, hperforms⟩))

end

def voidMethod (name : String) (params : List (MetaType × String × String))
    (methodType : MethodType) (enclosedByClass : Bool) (name_ne : name ≠ "") : MetaMethod where
  name := name
  methodSignature := name ++ "(" ++ ",".intercalate (params.map fun p => p.2.1) ++ ")"
  typeName := "void"
  returnMetaType := .void
  parameterMetaTypes := params.map fun p => p.1
  parameterTypeNames := params.map fun p => p.2.1
  parameterNames := params.map fun p => p.2.2
  methodType := methodType
  enclosedByClass := enclosedByClass
  name_ne := name_ne

/-- A plugin with no methods of its own: what it inherits from `QObject`, and the signal a
plugin reports its events with. -/
def pluginModule : WrappedObject where
  methods := [
    voidMethod "destroyed" [(.other "QObject*", "QObject*", "")] .signal false (by decide),
    voidMethod "destroyed" [] .signal false (by decide),
    voidMethod "objectNameChanged" [(.qString, "QString", "objectName")] .signal false
      (by decide),
    voidMethod "deleteLater" [] .slot false (by decide),
    voidMethod "eventResponse" [(.qString, "QString", "eventName"),
      (.qVariantList, "QVariantList", "data")] .signal true (by decide)]
  pluginInterface := some ⟨"m", true⟩

/-- A caller deletes the module through the slot it inherits, and forges an event by its
signal. -/
theorem unadvertised_invoked :
    ((callMethod .plain (some pluginModule) "deleteLater" []).Performs (.invoke 3 []) ∧
      ¬ Advertised pluginModule 3) ∧
    (callMethod .plain (some pluginModule) "eventResponse" [.string "e", .list []]).Performs
        (.invoke 4 [.string "e", .list []]) ∧
      ¬ Advertised pluginModule 4 := by
  refine ⟨⟨.now _ _, ?_⟩, .now _ _, ?_⟩
  · rw [advertised_iff]
    rintro ⟨m, hm, hown, _⟩
    obtain rfl := Option.some.inj hm
    cases hown
  · rw [advertised_iff]
    rintro ⟨m, hm, _, htype⟩
    obtain rfl := Option.some.inj hm
    rcases htype with h | h <;> cases h

end LogosPluginQt
