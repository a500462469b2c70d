import LogosPluginQt.Values

namespace LogosPluginQt
set_option autoImplicit true

inductive MethodType where
  | method | signal | slot | constructor
deriving DecidableEq

structure MetaMethod where
  name : String
  methodSignature : String
  typeName : String
  returnMetaType : MetaType
  parameterMetaTypes : List MetaType
  parameterTypeNames : List String
  parameterNames : List String
  methodType : MethodType
  /-- It is declared by the class itself, not by one the class inherits from. -/
  enclosedByClass : Bool
  name_ne : name ≠ ""

namespace MetaMethod

def parameterCount (m : MetaMethod) : Nat := m.parameterMetaTypes.length

/-- The method takes exactly these argument types and, where one is asked for, returns
exactly this type. -/
def Matches (m : MetaMethod) (name : String) (types : List MetaType)
    (returnType : Option MetaType) : Prop :=
  m.name = name ∧ m.parameterMetaTypes = types ∧ ∀ t ∈ returnType, m.returnMetaType = t

instance (m : MetaMethod) (name : String) (types : List MetaType)
    (returnType : Option MetaType) : Decidable (m.Matches name types returnType) :=
  inferInstanceAs (Decidable (_ ∧ _ ∧ _))

end MetaMethod

/-- Qt and the codec of logos-protocol, as the adapter calls them. `fromJson` answers with a
value of the type or with the codec's diagnostic; `resolve` is what `QMetaObject::invokeMethod`
looks up, a method whose name and types match exactly, if there is one. -/
structure QtLib where
  codec : JsonCodec
  fromJsonBool : Json → String → Except String Bool
  fromJsonInteger (t : IntType) : Json → String → Except String (BitVec t.width)
  fromJsonDouble : Json → String → Except String (BitVec 64)
  fromJsonFloat : Json → String → Except String (BitVec 32)
  fromJsonString : Json → String → Except String String
  fromJsonBytes : Json → String → Except String (List UInt8)
  fromJsonStrings : Json → String → Except String (List String)
  fromJsonArray : Json → String → Except String (List Json)
  fromJsonObject : Json → String → Except String (List (String × Json))
  toList : QVariant → List QVariant
  toMap : QVariant → List (String × QVariant)
  toJsonArray : QVariant → List Json
  toJsonObject : QVariant → List (String × Json)
  toString : QVariant → String
  convert : QVariant → MetaType → Option QVariant
  resolve : List MetaMethod → String → List MetaType → Option MetaType → Option Nat
  toString_string : ∀ s, toString (.string s) = s
  resolve_matches : ∀ ms name types returnType i, resolve ms name types returnType = some i →
    ∃ m, ms[i]? = some m ∧ m.Matches name types returnType
  resolve_isSome : ∀ ms name types returnType, (∃ m ∈ ms, m.Matches name types returnType) →
    (resolve ms name types returnType).isSome = true

inductive QtArgVerdict where
  | ok (out : QVariant)
  | rejected (error : String)
  | unchecked

/-- `decodeAs<T>`: what `QtArgCodec<T>` answers becomes a value of the type. -/
def decodeAs {α : Type} (decoded : Except String α) (fromValue : α → QVariant) : QtArgVerdict :=
  match decoded with
  | .ok x => .ok (fromValue x)
  | .error error => .rejected error

section
variable (q : QtLib)

def qtArgDecode (v : QVariant) (paramType : MetaType) (path : String) : QtArgVerdict :=
  let j := q.codec.qvariantToNlohmann v
  match paramType with
  | .bool => decodeAs (q.fromJsonBool j path) .bool
  | .integer t => decodeAs (q.fromJsonInteger t j path) (.integer t)
  | .double => decodeAs (q.fromJsonDouble j path) .double
  | .float => decodeAs (q.fromJsonFloat j path) .float
  | .qString => decodeAs (q.fromJsonString j path) .string
  | .qByteArray => decodeAs (q.fromJsonBytes j path) .byteArray
  | .qStringList => decodeAs (q.fromJsonStrings j path) .stringList
  -- the shape is checked, the value handed on is the caller's
  | .qVariantList => decodeAs (q.fromJsonArray j path) fun _ => .list (q.toList v)
  | .qVariantMap => decodeAs (q.fromJsonObject j path) fun _ => .map (q.toMap v)
  | .qJsonArray => decodeAs (q.fromJsonArray j path) fun _ => .jsonArray (q.toJsonArray v)
  | .qJsonObject => decodeAs (q.fromJsonObject j path) fun _ => .jsonObject (q.toJsonObject v)
  | _ => .unchecked

/-- One step of `toScopedQArgs`: a value of a type it has no case for becomes a `QString`. -/
def toScopedQArg (v : QVariant) : QVariant :=
  match v with
  | .integer .int _ | .integer .longLong _ | .integer .uLongLong _ => v
  | .list _ | .map _ | .stringList _ | .byteArray _ | .url _ => v
  | .bool _ | .double _ | .float _ => v
  | _ => .string (q.toString v)

def scopedTypes : List MetaType :=
  [.integer .int, .integer .longLong, .integer .uLongLong, .qVariantList, .qVariantMap,
    .qStringList, .qByteArray, .qUrl, .bool, .double, .float, .qString]

variable {q} {v out : QVariant} {paramType : MetaType} {path : String}

theorem decodeAs_ok {α : Type} {decoded : Except String α} {fromValue : α → QVariant}
    (h : decodeAs decoded fromValue = .ok out) : ∃ x, decoded = .ok x ∧ fromValue x = out := by
  cases decoded with
  | error error => cases h
  | ok x =>
    obtain rfl := QtArgVerdict.ok.inj h
    exact ⟨x, rfl, rfl⟩

theorem qtArgDecode_metaType (h : qtArgDecode q v paramType path = .ok out) :
    out.metaType = paramType := by
  cases paramType with
  | bool | integer | double | float | qString | qByteArray | qStringList | qVariantList
  | qVariantMap | qJsonArray | qJsonObject =>
    obtain ⟨x, _, rfl⟩ := decodeAs_ok h
    rfl
  | _ => cases h

theorem toScopedQArg_scoped (h : v.metaType ∈ scopedTypes) : toScopedQArg q v = v := by
  cases v with
  | integer t n =>
    cases t with
    | int | longLong | uLongLong => rfl
    | _ => simp [QVariant.metaType, scopedTypes] at h
  | string s => exact congrArg QVariant.string (q.toString_string s)
  | bool | double | float | byteArray | stringList | list | map | url => rfl
  | _ => simp [QVariant.metaType, scopedTypes] at h

end

end LogosPluginQt
