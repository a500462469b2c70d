import Mathlib.Algebra.Group.Int.Defs
import LogosPluginQt.QtProvider

namespace LogosPluginQt
open Interleaving QtProviderObject
set_option autoImplicit true

/-- `qtArgDecode` answers Ok for every argument, the first of them being the `i`-th, and
decodes them to `decoded`. -/
def Accepted (q : QtLib) (i : Nat) :
    List QVariant → List MetaType → List QVariant → Prop
  | [], [], [] => True
  | arg :: args, paramType :: paramTypes, out :: decoded =>
    qtArgDecode q arg paramType ("arg" ++ toString i) = .ok out ∧
      Accepted q (i + 1) args paramTypes decoded
  | _, _, _ => False

section
variable {q : QtLib} {object : WrappedObject} {methodName : String}

theorem Accepted.coerceArgs {i : Nat} {args decoded : List QVariant}
    {paramTypes : List MetaType} (h : Accepted q i args paramTypes decoded) :
    coerceArgs q i args paramTypes = .ok decoded := by
  induction args generalizing i paramTypes decoded with
  | nil =>
    cases paramTypes <;> cases decoded <;> first | rfl | cases h
  | cons arg args ih =>
    cases paramTypes with
    | nil => cases h
    | cons paramType paramTypes =>
      cases decoded with
      | nil => cases h
      | cons out decoded =>
        obtain ⟨hout, hrest⟩ := h
        simp only [QtProviderObject.coerceArgs, hout, ih hrest]
        rfl

theorem Accepted.metaTypes {i : Nat} {args decoded : List QVariant}
    {paramTypes : List MetaType} (h : Accepted q i args paramTypes decoded) :
    decoded.map QVariant.metaType = paramTypes ∧ decoded.length = args.length := by
  induction args generalizing i paramTypes decoded with
  | nil => cases paramTypes <;> cases decoded <;> first | exact ⟨rfl, rfl⟩ | cases h
  | cons arg args ih =>
    cases paramTypes with
    | nil => cases h
    | cons paramType paramTypes =>
      cases decoded with
      | nil => cases h
      | cons out decoded =>
        obtain ⟨hout, hrest⟩ := h
        obtain ⟨htypes, hlength⟩ := ih hrest
        rw [List.map_cons, List.length_cons, List.length_cons, htypes, hlength,
          qtArgDecode_metaType hout]
        exact ⟨rfl, rfl⟩

theorem map_toScopedQArg {args : List QVariant}
    (h : ∀ t ∈ args.map QVariant.metaType, t ∈ scopedTypes) :
    args.map (toScopedQArg q) = args := by
  induction args with
  | nil => rfl
  | cons arg args ih =>
    rw [List.map_cons, List.forall_mem_cons] at h
    rw [List.map_cons, toScopedQArg_scoped h.1, ih h.2]

def returnTypeArg (t : MetaType) : Option MetaType := if t = .void then none else some t

theorem mem_returnTypeArg {t : MetaType} : ∀ t' ∈ returnTypeArg t, t = t' := by
  unfold returnTypeArg
  split
  · exact fun _ hmem => absurd hmem (by simp)
  · exact fun _ hmem => Option.some.inj hmem

/-- Qt finds the method that alone matches. -/
theorem resolve_eq {index : Nat} {m : MetaMethod} {types : List MetaType}
    {returnType : Option MetaType} (hm : object.methods[index]? = some m)
    (hmatch : m.Matches methodName types returnType)
    (hunique : ∀ j m', object.methods[j]? = some m' →
      m'.Matches methodName types returnType → j = index) :
    q.resolve object.methods methodName types returnType = some index := by
  have hsome := q.resolve_isSome object.methods methodName types returnType
    ⟨m, List.mem_of_getElem? hm, hmatch⟩
  obtain ⟨j, hj⟩ := Option.isSome_iff_exists.1 hsome
  obtain ⟨m', hm', hmatch'⟩ := q.resolve_matches _ _ _ _ _ hj
  rw [hj, hunique j m' hm' hmatch']

/-- The two chains over return types agree on their names. -/
theorem returnArg_of_name {t : MetaType} {name : String} (h : returnTypeName t = some name) :
    returnArg name = some t := by
  unfold returnTypeName at h
  split at h
  case h_12 => cases h
  all_goals
    obtain rfl := Option.some.inj h
    rfl

theorem methodIndex_spec {args : List QVariant} {index : Nat}
    (h : methodIndex object methodName args = some index) :
    ∃ m, object.methods[index]? = some m ∧ m.name = methodName ∧
      m.parameterCount = args.length := by
  obtain ⟨hlt, hm, _⟩ := List.findIdx?_eq_some_iff_getElem.1 h
  refine ⟨_, List.getElem?_eq_getElem hlt, ?_⟩
  simpa only [Bool.and_eq_true, decide_eq_true_eq] using hm

def frameworkNames : List String := ["getPluginMethods", "getPluginEvents", "getPluginInterface"]

theorem framework_guard {args : List QVariant} (hfree : args = [] → methodName ∉ frameworkNames)
    (name : String) (hmem : name ∈ frameworkNames) :
    (decide (methodName = name) && args.isEmpty) = false := by
  cases args with
  | nil =>
    rw [List.isEmpty_nil, Bool.and_true]
    apply decide_eq_false
    rintro rfl
    exact hfree rfl hmem
  | cons => rw [List.isEmpty_cons, Bool.and_false]

theorem callMethod_eq {args : List QVariant} {pluginInterface : PluginInterface} {index : Nat}
    {m : MetaMethod} (hplugin : object.pluginInterface = some pluginInterface)
    (hapi : pluginInterface.hasLogosAPI = true)
    (hfree : args = [] → methodName ∉ frameworkNames)
    (hindex : methodIndex object methodName args = some index)
    (hm : object.methods[index]? = some m) :
    callMethod q (some object) methodName args =
      match QtProviderObject.coerceArgs q 0 args m.parameterMetaTypes with
      | .error reason => .ret (dispatchFailedVariant (providerName object) reason)
      | .ok coercedArgs =>
        callByReturnType q object methodName coercedArgs m.returnMetaType := by
  obtain ⟨m', hm', rfl, _⟩ := methodIndex_spec hindex
  have hname := m'.name_ne
  have h₁ := framework_guard hfree "getPluginMethods" (by simp [frameworkNames])
  have h₂ := framework_guard hfree "getPluginEvents" (by simp [frameworkNames])
  have h₃ := framework_guard hfree "getPluginInterface" (by simp [frameworkNames])
  simp only [callMethod, hname, h₁, h₂, h₃, hplugin, hapi, hindex, hm, ↓reduceIte,
    Bool.false_eq_true, Bool.not_true]
  rfl

/-- With at most five arguments and a return type there is a case for, the method is asked of
Qt, by the arguments as they are passed on and by that return type. -/
theorem callByReturnType_invokes {args : List QVariant} {returnType : MetaType}
    (hlength : args.length ≤ 5)
    (hreturn : returnType = .void ∨ (returnTypeName returnType).isSome = true) :
    callByReturnType q object methodName args returnType =
      (invokeMethod q object methodName (returnTypeArg returnType)
        (args.map (toScopedQArg q)) >>= fun result =>
          .ret (if returnType = .void then if result.isSome then .bool true else .invalid
            else result.getD .invalid)) := by
  by_cases hvoid : returnType = .void
  · simp only [callByReturnType, hvoid, ↓reduceIte, invokeMethodByArgCount, hlength,
      returnTypeArg, Prog.pure_eq]
  · obtain ⟨name, hname⟩ := Option.isSome_iff_exists.1 (hreturn.resolve_left hvoid)
    simp only [callByReturnType, if_neg hvoid, hname, invokeMethodByArgCount,
      returnArg_of_name hname, hlength, ↓reduceIte, returnTypeArg, Prog.pure_eq]

theorem callByReturnType_runs {args : List QVariant} {index : Nat} {m : MetaMethod}
    (hm : object.methods[index]? = some m) (hname : m.name = methodName)
    (hscoped : args.map (toScopedQArg q) = args)
    (htypes : args.map QVariant.metaType = m.parameterMetaTypes) (hlength : args.length ≤ 5)
    (hreturn : m.returnMetaType = .void ∨ (returnTypeName m.returnMetaType).isSome = true)
    (hunique : ∀ j m', object.methods[j]? = some m' → m'.Matches methodName
      m.parameterMetaTypes (returnTypeArg m.returnMetaType) → j = index) :
    callByReturnType q object methodName args m.returnMetaType =
      .act (.invoke index args) fun value =>
        .ret (if m.returnMetaType = .void then .bool true else value) := by
  have hmatch : m.Matches methodName m.parameterMetaTypes (returnTypeArg m.returnMetaType) :=
    ⟨hname, rfl, mem_returnTypeArg⟩
  have hinvoke : invokeMethod q object methodName (returnTypeArg m.returnMetaType) args =
      .act (.invoke index args) fun value => .ret (some value) := by
    simp only [invokeMethod, htypes, resolve_eq hm hmatch hunique]
  rw [callByReturnType_invokes hlength hreturn, hscoped, hinvoke]
  rfl

/-- Acceptance implies execution: an accepted call runs the body of the method it selected,
exactly once, on the decoded values, and replies with what it returns. -/
theorem accepted_runs {args decoded : List QVariant} {pluginInterface : PluginInterface}
    {index : Nat} {m : MetaMethod}
    (hplugin : object.pluginInterface = some pluginInterface)
    (hapi : pluginInterface.hasLogosAPI = true) (hfree : methodName ∉ frameworkNames)
    (hindex : methodIndex object methodName args = some index)
    (hm : object.methods[index]? = some m)
    (haccepted : Accepted q 0 args m.parameterMetaTypes decoded)
    (hlength : args.length ≤ 5) (hscoped : ∀ t ∈ m.parameterMetaTypes, t ∈ scopedTypes)
    (hreturn : m.returnMetaType = .void ∨ (returnTypeName m.returnMetaType).isSome = true)
    (hunique : ∀ j m', object.methods[j]? = some m' → m'.Matches methodName
      m.parameterMetaTypes (returnTypeArg m.returnMetaType) → j = index) :
    callMethod q (some object) methodName args =
      .act (.invoke index decoded) fun value =>
        .ret (if m.returnMetaType = .void then .bool true else value) := by
  obtain ⟨m', hm', hname, _⟩ := methodIndex_spec hindex
  obtain rfl := Option.some.inj (hm.symm.trans hm')
  obtain ⟨htypes, hdecoded⟩ := haccepted.metaTypes
  rw [callMethod_eq hplugin hapi (fun _ => hfree) hindex hm, haccepted.coerceArgs]
  apply callByReturnType_runs hm hname ?_ htypes (hdecoded ▸ hlength) hreturn hunique
  exact map_toScopedQArg fun t ht => hscoped t (htypes ▸ ht)

end

def IntType.ofInt? (t : IntType) (n : Int) : Option (BitVec t.width) :=
  match t with
  | .uInt | .uShort | .uLong | .uLongLong =>
    if 0 ≤ n ∧ n < 2 ^ t.width then some (BitVec.ofInt _ n) else none
  | _ =>
    if -2 ^ (t.width - 1) ≤ n ∧ n < 2 ^ (t.width - 1) then some (BitVec.ofInt _ n) else none

def MetaMethod.search (ms : List MetaMethod) (name : String) (types : List MetaType)
    (returnType : Option MetaType) : Option Nat :=
  (ms.findIdx? fun m => m.enclosedByClass ∧ m.Matches name types returnType).or
    (ms.findIdx? fun m => m.Matches name types returnType)

theorem MetaMethod.search_matches {ms : List MetaMethod} {name : String}
    {types : List MetaType} {returnType : Option MetaType} {i : Nat}
    (h : search ms name types returnType = some i) :
    ∃ m, ms[i]? = some m ∧ m.Matches name types returnType := by
  rcases Option.or_eq_some_iff.1 h with hown | ⟨_, hany⟩
  · obtain ⟨hlt, hm, _⟩ := List.findIdx?_eq_some_iff_getElem.1 hown
    exact ⟨_, List.getElem?_eq_getElem hlt, (of_decide_eq_true hm).2⟩
  · obtain ⟨hlt, hm, _⟩ := List.findIdx?_eq_some_iff_getElem.1 hany
    exact ⟨_, List.getElem?_eq_getElem hlt, of_decide_eq_true hm⟩

theorem MetaMethod.search_isSome {ms : List MetaMethod} {name : String}
    {types : List MetaType} {returnType : Option MetaType}
    (h : ∃ m ∈ ms, m.Matches name types returnType) :
    (search ms name types returnType).isSome = true := by
  obtain ⟨m, hmem, hm⟩ := h
  have hany : (ms.findIdx? fun m => m.Matches name types returnType).isSome = true :=
    List.findIdx?_isSome.trans (List.any_eq_true.2 ⟨m, hmem, decide_eq_true hm⟩)
  rw [search, Option.isSome_or, hany, Bool.or_true]

/-- Qt and the codec with the documented behaviour, to run the model on: no float is
narrowed, and only a value of the type itself converts. -/
def QtLib.plain : QtLib where
  codec := .plain []
  fromJsonBool
    | .bool b, _ => .ok b
    | _, path => .error ("expected bool at " ++ path)
  fromJsonInteger t
    | .int n, path => (t.ofInt? n).elim (.error ("out of range at " ++ path)) .ok
    | _, path => .error ("expected integer at " ++ path)
  fromJsonDouble
    | .float bits, _ => .ok bits
    | _, path => .error ("expected number at " ++ path)
  fromJsonFloat _ path := .error ("expected number at " ++ path)
  fromJsonString
    | .string s, _ => .ok s
    | _, path => .error ("expected string at " ++ path)
  fromJsonBytes
    | .string s, _ => .ok s.toUTF8.toList
    | _, path => .error ("expected bytes at " ++ path)
  fromJsonStrings
    | .array items, path => items.mapM fun
      | .string s => .ok s
      | _ => .error ("expected string at " ++ path)
    | _, path => .error ("expected array at " ++ path)
  fromJsonArray
    | .array items, _ => .ok items
    | _, path => .error ("expected array at " ++ path)
  fromJsonObject
    | .object fields, _ => .ok fields
    | _, path => .error ("expected object at " ++ path)
  toList
    | .list items => items
    | _ => []
  toMap
    | .map fields => fields
    | _ => []
  toJsonArray
    | .jsonArray items => items
    | _ => []
  toJsonObject
    | .jsonObject fields => fields
    | _ => []
  toString
    | .string s => s
    | .integer t n => JsonCodec.plainDump (JsonCodec.plainFromQVariant (.integer t n))
    | _ => ""
  convert v t := if v.metaType = t then some v else none
  resolve := MetaMethod.search
  toString_string _ := rfl
  resolve_matches _ _ _ _ _ := MetaMethod.search_matches
  resolve_isSome _ _ _ _ := MetaMethod.search_isSome

def echoMethod (t returnType : MetaType) (typeName returnTypeName : String) : MetaMethod where
  name := "echo"
  methodSignature := "echo(" ++ typeName ++ ")"
  typeName := returnTypeName
  returnMetaType := returnType
  parameterMetaTypes := [t]
  parameterTypeNames := [typeName]
  parameterNames := ["value"]
  methodType := .method
  enclosedByClass := true
  name_ne := by decide

def echoModule : WrappedObject where
  methods := [echoMethod (.integer .int) (.integer .int) "int" "int",
    echoMethod .bool .bool "bool" "bool"]
  pluginInterface := some ⟨"m", true⟩

theorem accepted_runs_echo :
    callMethod .plain (some echoModule) "echo" [.integer .longLong 5] =
      .act (.invoke 0 [.integer .int 5]) fun value => .ret value := by
  have hunique : ∀ j m', echoModule.methods[j]? = some m' →
      m'.Matches "echo" [.integer .int] (returnTypeArg (.integer .int)) → j = 0 := by
    rintro (_ | _ | j) m' hm' ⟨_, ht, _⟩
    · rfl
    · obtain rfl := Option.some.inj hm'
      cases ht
    · cases hm'
  exact accepted_runs (m := echoMethod (.integer .int) (.integer .int) "int" "int") rfl rfl
    (by decide) rfl rfl ⟨rfl, trivial⟩ (by decide) (by decide) (.inr rfl) hunique

/-- A module whose `echo` returns a type the adapter has no case for. -/
def bytesModule : WrappedObject where
  methods := [echoMethod (.integer .int) .qByteArray "int" "QByteArray"]
  pluginInterface := some ⟨"m", true⟩

def sixModule : WrappedObject where
  methods := [{ echoMethod .bool .bool "bool" "bool" with
    methodSignature := "echo(bool,bool,bool,bool,bool,bool)"
    parameterMetaTypes := List.replicate 6 .bool
    parameterTypeNames := List.replicate 6 "bool"
    parameterNames := ["a", "b", "c", "d", "e", "f"] }]
  pluginInterface := some ⟨"m", true⟩

/-- A module whose `echo` takes an unsigned number, or a text. -/
def overloadedModule : WrappedObject where
  methods := [echoMethod (.integer .uInt) (.integer .int) "uint" "int",
    echoMethod .qString (.integer .int) "QString" "int"]
  pluginInterface := some ⟨"m", true⟩

/-- A module whose class declares the `echo` it inherits once more. -/
def redeclaredModule : WrappedObject where
  methods := [
    { echoMethod (.integer .int) (.integer .int) "int" "int" with enclosedByClass := false },
    echoMethod (.integer .int) (.integer .int) "int" "int"]
  pluginInterface := some ⟨"m", true⟩

/-- Accepted calls that do not run the method selected: for its return type or its number
of parameters none is run; a number accepted as unsigned is passed on as a text, which runs
the other overload; and the class's own declaration runs instead of the inherited one. -/
theorem accepted_not_run :
    "echo" ∉ frameworkNames ∧
    (methodIndex bytesModule "echo" [.integer .longLong 5] = some 0 ∧
      Accepted .plain 0 [.integer .longLong 5] [.integer .int] [.integer .int 5] ∧
      callMethod .plain (some bytesModule) "echo" [.integer .longLong 5] = .ret .invalid) ∧
    (methodIndex sixModule "echo" (List.replicate 6 (.bool true)) = some 0 ∧
      Accepted .plain 0 (List.replicate 6 (.bool true)) (List.replicate 6 .bool)
        (List.replicate 6 (.bool true)) ∧
      callMethod .plain (some sixModule) "echo" (List.replicate 6 (.bool true)) =
        .ret .invalid) ∧
    (methodIndex overloadedModule "echo" [.integer .longLong 5] = some 0 ∧
      Accepted .plain 0 [.integer .longLong 5] [.integer .uInt] [.integer .uInt 5] ∧
      (callMethod .plain (some overloadedModule) "echo" [.integer .longLong 5]).pending =
        some (.invoke 1 [.string "5"])) ∧
    methodIndex redeclaredModule "echo" [.integer .longLong 5] = some 0 ∧
      Accepted .plain 0 [.integer .longLong 5] [.integer .int] [.integer .int 5] ∧
      (callMethod .plain (some redeclaredModule) "echo" [.integer .longLong 5]).pending =
        some (.invoke 1 [.integer .int 5]) := by
  refine ⟨by decide, ⟨rfl, ⟨rfl, trivial⟩, rfl⟩, ⟨rfl, ?_, rfl⟩, ⟨rfl, ⟨rfl, trivial⟩, rfl⟩,
    rfl, ⟨rfl, trivial⟩, rfl⟩
  exact ⟨rfl, rfl, rfl, rfl, rfl, rfl, trivial⟩

end LogosPluginQt
