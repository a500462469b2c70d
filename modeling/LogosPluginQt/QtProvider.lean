import LogosPluginQt.Interleaving
import LogosPluginQt.QtArgDecode

namespace LogosPluginQt
open Interleaving
set_option autoImplicit true

structure PluginInterface where
  name : String
  hasLogosAPI : Bool

/-- A wrapped `QObject`: the methods of its meta-object, inherited ones included. -/
structure WrappedObject where
  methods : List MetaMethod
  pluginInterface : Option PluginInterface

/-- The adapter runs the body of a meta-method, by its index, and gets its return value. -/
inductive QtAction where
  | invoke (index : Nat) (args : List QVariant)

abbrev QtAction.Ans : QtAction → Type
  | .invoke _ _ => QVariant

abbrev QtProg := Prog QtAction.Ans

namespace QtProviderObject

section
variable (q : QtLib) (object : WrappedObject)

def providerName : String := (object.pluginInterface.map PluginInterface.name).getD ""

/-- The `QMetaObject::invokeMethod` of Qt, with a direct connection. -/
def invokeMethod (methodName : String) (returnArg : Option MetaType) (args : List QVariant) :
    QtProg (Option QVariant) :=
  match q.resolve object.methods methodName (args.map QVariant.metaType) returnArg with
  | some index => .act (.invoke index args) fun value => .ret (some value)
  | none => .ret none

def returnArg : String → Option MetaType
  | "bool" => some .bool
  | "int" => some (.integer .int)
  | "double" => some .double
  | "float" => some .float
  | "QString" => some .qString
  | "LogosResult" => some .logosResult
  | "QVariant" => some .qVariant
  | "QJsonArray" => some .qJsonArray
  | "QVariantList" => some .qVariantList
  | "QVariantMap" => some .qVariantMap
  | "QStringList" => some .qStringList
  | _ => none

/-- The value a successful call leaves in `returnValue`, if it has one. -/
def invokeMethodByArgCount (methodName : String) (args : List QVariant)
    (returnTypeName : Option String) : QtProg (Option QVariant) :=
  let scopedArgs := args.map (toScopedQArg q)
  match returnTypeName with
  | none =>
    if args.length ≤ 5 then invokeMethod q object methodName none scopedArgs else return none
  | some returnTypeName =>
    match returnArg returnTypeName with
    | some returnType =>
      if args.length ≤ 5 then invokeMethod q object methodName (some returnType) scopedArgs
      else return none
    | none => return none

/-- The first method of the name that takes as many arguments. -/
def methodIndex (methodName : String) (args : List QVariant) : Option Nat :=
  object.methods.findIdx? fun m => m.name = methodName && m.parameterCount = args.length

def methodNotFound (methodName : String) (args : List QVariant) : QVariant :=
  if args.isEmpty && (methodName = "name" || methodName = "version") then .invalid
  else
    let candidates := object.methods.filter fun m => m.name = methodName
    match (candidates.map MetaMethod.parameterCount).eraseDups with
    | [] => rejectionVariant "unknown_method" (providerName object)
        ("unknown method '" ++ methodName ++ "'")
    | [arity] => rejectionVariant "invalid_args" (providerName object)
        ("expected " ++ toString arity ++ " arguments, got " ++ toString args.length)
    | _ => rejectionVariant "invalid_args" (providerName object)
        ("no overload of '" ++ methodName ++ "' takes " ++ toString args.length ++ " arguments")

/-- The loop over the arguments, from the `i`-th one on: it ends at the first rejection. -/
def coerceArgs (i : Nat) : List QVariant → List MetaType → Except String (List QVariant)
  | arg :: args, paramType :: paramTypes => do
    let coerced ← match qtArgDecode q arg paramType ("arg" ++ toString i) with
      | .rejected reason => .error reason
      | .ok decoded => .ok decoded
      | .unchecked => .ok (if arg.metaType ≠ paramType then (q.convert arg paramType).getD arg
          else arg)
    let rest ← coerceArgs (i + 1) args paramTypes
    return coerced :: rest
  | args, _ => .ok args

/-- The name under which `callMethod` asks for a return type it has a case for. -/
def returnTypeName : MetaType → Option String
  | .bool => some "bool"
  | .integer .int => some "int"
  | .double => some "double"
  | .float => some "float"
  | .qString => some "QString"
  | .logosResult => some "LogosResult"
  | .qVariant => some "QVariant"
  | .qJsonArray => some "QJsonArray"
  | .qVariantList => some "QVariantList"
  | .qVariantMap => some "QVariantMap"
  | .qStringList => some "QStringList"
  | _ => none

/-- The end of `callMethod`: the call itself, by the return type the method declares. -/
def callByReturnType (methodName : String) (args : List QVariant) (returnType : MetaType) :
    QtProg QVariant :=
  if returnType = .void then do
    let success ← invokeMethodByArgCount q object methodName args none
    return if success.isSome then .bool true else .invalid
  else
    match returnTypeName returnType with
    | some name => do
      let result ← invokeMethodByArgCount q object methodName args (some name)
      return result.getD .invalid
    | none => return .invalid

/-- One entry of the listing; a parameter without a name gets one from its position. -/
def methodObj (m : MetaMethod) : Json :=
  let param (p : Nat) : Json := .object [
    ("name", .string (match m.parameterNames[p]? with
      | some name => if name ≠ "" then name else "param" ++ toString p
      | none => "param" ++ toString p)),
    ("type", .string (m.parameterTypeNames.getD p ""))]
  let parameters := if m.parameterCount > 0 then
      [("parameters", .array ((List.range m.parameterCount).map param))]
    else []
  -- every method of a meta-object is valid
  .object ([("isInvokable", .bool (m.methodType = .method || m.methodType = .slot)),
    ("name", .string m.name)] ++ parameters ++
    [("returnType", .string m.typeName), ("signature", .string m.methodSignature)])

/-- The methods `getMethods` lists, with their indices: those the class itself declares. -/
def listed : List (MetaMethod × Nat) :=
  object.methods.zipIdx.filter fun m => m.1.enclosedByClass

def getMethods : List Json := (listed object).map fun m => methodObj m.1

def callMethod (module : Option WrappedObject) (methodName : String) (args : List QVariant) :
    QtProg QVariant :=
  match module with
  | none => return .invalid
  | some object =>
    if methodName = "" then return .invalid
    else if methodName = "getPluginMethods" && args.isEmpty then
      return .jsonArray (getMethods object)
    else if methodName = "getPluginEvents" && args.isEmpty then return .jsonArray []
    else if methodName = "getPluginInterface" && args.isEmpty then
      return .jsonArray (getMethods object)
    else
      match object.pluginInterface with
      | none => return .invalid
      | some pluginInterface =>
        if !pluginInterface.hasLogosAPI then return .invalid
        else
          match methodIndex object methodName args with
          | none => return methodNotFound object methodName args
          | some index =>
            match object.methods[index]? with
            | none => return .invalid
            | some method =>
              match coerceArgs q 0 args method.parameterMetaTypes with
              | .error reason => return dispatchFailedVariant (providerName object) reason
              | .ok coercedArgs =>
                callByReturnType q object methodName coercedArgs method.returnMetaType

end

end QtProviderObject

end LogosPluginQt
