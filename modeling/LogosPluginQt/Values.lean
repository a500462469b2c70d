import Mathlib.Data.List.Basic

namespace LogosPluginQt
set_option autoImplicit true

/-- A JSON value as nlohmann holds it; an object's keys are distinct and sorted there. -/
inductive Json where
  | null
  | bool (b : Bool)
  | int (n : Int)
  | float (bits : BitVec 64)
  | string (s : String)
  | array (items : List Json)
  | object (fields : List (String × Json))

namespace Json

def isObject : Json → Bool
  | .object _ => true
  | _ => false

/-- The entry of an object, as `find` and `contains` see it: nothing has entries otherwise. -/
def find? : Json → String → Option Json
  | .object fields, key => (fields.find? fun f => f.1 = key).map Prod.snd
  | _, _ => none

/-- The name of an entry of a method list, where it is an object that has one. -/
def name? (j : Json) : Option String :=
  match j.find? "name" with
  | some (.string name) => some name
  | _ => none

end Json

/-- The integer types of `QMetaType`, with their widths on the platforms built for. -/
inductive IntType where
  | int | uInt | short | uShort | long | uLong | longLong | uLongLong
deriving DecidableEq

def IntType.width : IntType → Nat
  | .short | .uShort => 16
  | .int | .uInt => 32
  | .long | .uLong | .longLong | .uLongLong => 64

/-- The types a `QMetaType` may name; those the code has no case for go by their name. -/
inductive MetaType where
  | unknown | void | bool | double | float
  | integer (t : IntType)
  | qString | qByteArray | qStringList | qVariantList | qVariantMap
  | qJsonArray | qJsonObject | qUrl | qVariant | logosResult
  | other (name : String)
deriving DecidableEq

/-- A `QVariant`: a value of the type it carries. Values of types the code only passes on
are told apart by a number. -/
inductive QVariant where
  | invalid
  | bool (b : Bool)
  | integer (t : IntType) (n : BitVec t.width)
  | double (bits : BitVec 64)
  | float (bits : BitVec 32)
  | string (s : String)
  | byteArray (bytes : List UInt8)
  | stringList (items : List String)
  | list (items : List QVariant)
  | map (fields : List (String × QVariant))
  | jsonArray (items : List Json)
  | jsonObject (fields : List (String × Json))
  | url (n : Nat)
  | logosResult (success : Bool) (value error : QVariant)
  | other (name : String) (n : Nat)

namespace QVariant

def metaType : QVariant → MetaType
  | .invalid => .unknown
  | .bool _ => .bool
  | .integer t _ => .integer t
  | .double _ => .double
  | .float _ => .float
  | .string _ => .qString
  | .byteArray _ => .qByteArray
  | .stringList _ => .qStringList
  | .list _ => .qVariantList
  | .map _ => .qVariantMap
  | .jsonArray _ => .qJsonArray
  | .jsonObject _ => .qJsonObject
  | .url _ => .qUrl
  | .logosResult _ _ _ => .logosResult
  | .other name _ => .other name

def field? : QVariant → String → Option QVariant
  | .map fields, key => (fields.find? fun f => f.1 = key).map Prod.snd
  | _, _ => none

end QVariant

def rejectionVariant (code origin message : String) : QVariant :=
  .map [("code", .string code), ("message", .string message), ("origin", .string origin)]

def dispatchFailedVariant (origin message : String) : QVariant :=
  rejectionVariant "dispatch_failed" origin message

def BareMetadata (methodName : String) (args : List QVariant) : Prop :=
  args = [] ∧ (methodName = "name" ∨ methodName = "version")

theorem bareMetadata_iff {methodName : String} {args : List QVariant} :
    (args.isEmpty && (methodName = "name" || methodName = "version")) = true ↔
      BareMetadata methodName args := by
  rw [Bool.and_eq_true, List.isEmpty_iff, Bool.or_eq_true, decide_eq_true_eq,
    decide_eq_true_eq, BareMetadata]

/-- An object that stands for bytes: `_bytes` is its only key. -/
def BytesObject (fields : List (String × Json)) : Prop := ∃ v, fields = [("_bytes", v)]

/-- nlohmann and the conversions of logos-protocol, as this repository calls them, with
what they document. `parse` has exceptions disabled: it answers a discarded value. -/
structure JsonCodec where
  qvariantToNlohmann : QVariant → Json
  nlohmannToQVariant : Json → QVariant
  dump : Json → String
  parse : List UInt8 → Option Json
  dump_array : ∀ items, dump (.array items) = "[]" ↔ items = []
  toQVariant_object : ∀ fields, ¬ BytesObject fields → nlohmannToQVariant (.object fields) =
    .map (fields.map fun f => (f.1, nlohmannToQVariant f.2))

theorem find?_map_snd {α β : Type} (fields : List (String × α)) (g : α → β) (key : String) :
    ((fields.map fun f => (f.1, g f.2)).find? fun f => f.1 = key).map Prod.snd =
      ((fields.find? fun f => f.1 = key).map Prod.snd).map g := by
  rw [List.find?_map, Option.map_map, Option.map_map]
  rfl

theorem JsonCodec.field_toQVariant (codec : JsonCodec) {fields : List (String × Json)}
    (h : ¬ BytesObject fields) (key : String) :
    (codec.nlohmannToQVariant (.object fields)).field? key =
      ((Json.object fields).find? key).map codec.nlohmannToQVariant := by
  rw [codec.toQVariant_object fields h]
  exact find?_map_snd fields codec.nlohmannToQVariant key

theorem not_bytesObject {fields : List (String × Json)} {v : Json}
    (h : (Json.object fields).find? "code" = some v) : ¬ BytesObject fields := by
  rintro ⟨w, rfl⟩
  cases h

namespace JsonCodec

mutual

def plainToQVariant : Json → QVariant
  | .null => .invalid
  | .bool b => .bool b
  | .int n => .integer .longLong (BitVec.ofInt 64 n)
  | .float bits => .double bits
  | .string s => .string s
  | .array items => .list (plainItems items)
  | .object fields => .map (plainFields fields)

def plainItems : List Json → List QVariant
  | [] => []
  | j :: rest => plainToQVariant j :: plainItems rest

def plainFields : List (String × Json) → List (String × QVariant)
  | [] => []
  | (key, j) :: rest => (key, plainToQVariant j) :: plainFields rest

end

mutual

def plainFromQVariant : QVariant → Json
  | .bool b => .bool b
  | .integer t n =>
    match t with
    | .uInt | .uShort | .uLong | .uLongLong => .int n.toNat
    | _ => .int n.toInt
  | .double bits => .float bits
  | .string s => .string s
  | .stringList items => .array (items.map .string)
  | .list items => .array (plainFromItems items)
  | .map fields => .object (plainFromFields fields)
  | .jsonArray items => .array items
  | .jsonObject fields => .object fields
  | _ => .null

def plainFromItems : List QVariant → List Json
  | [] => []
  | v :: rest => plainFromQVariant v :: plainFromItems rest

def plainFromFields : List (String × QVariant) → List (String × Json)
  | [] => []
  | (key, v) :: rest => (key, plainFromQVariant v) :: plainFromFields rest

end

mutual

def plainDump : Json → String
  | .null => "null"
  | .bool b => if b then "true" else "false"
  | .int n => n.repr
  | .float bits => bits.toNat.repr ++ ".0"
  | .string s => "\"" ++ s ++ "\""
  | .array items => "[" ++ (plainDumpItems "" items ++ "]")
  | .object fields => "\x7b" ++ (plainDumpFields "" fields ++ "\x7d")

def plainDumpItems (separator : String) : List Json → String
  | [] => ""
  | j :: rest => separator ++ (plainDump j ++ plainDumpItems "," rest)

def plainDumpFields (separator : String) : List (String × Json) → String
  | [] => ""
  | (key, j) :: rest =>
    separator ++ ("\"" ++ (key ++ ("\":" ++ (plainDump j ++ plainDumpFields "," rest))))

end

theorem plainDump_ne (j : Json) : plainDump j ≠ "" := by
  cases j with
  | null => decide
  | bool b => cases b <;> decide
  | int n =>
    rw [plainDump, Int.repr_eq_if]
    split
    · exact Nat.repr_ne_empty
    · intro he
      exact Nat.repr_ne_empty (String.append_eq_empty_iff.1 he).2
  | float bits =>
    intro he
    exact Nat.repr_ne_empty (String.append_eq_empty_iff.1 he).1
  | string | array | object =>
    intro he
    have hquote := (String.append_eq_empty_iff.1 he).1
    simp at hquote

theorem plainDump_array (items : List Json) : plainDump (.array items) = "[]" ↔ items = [] := by
  constructor
  · intro h
    have hs : plainDumpItems "" items ++ "]" = "" ++ "]" :=
      (String.append_right_inj "[").1 h
    have hempty := (String.append_left_inj "]").1 hs
    cases items with
    | nil => rfl
    | cons j rest =>
      rw [plainDumpItems, String.append_eq_empty_iff, String.append_eq_empty_iff] at hempty
      exact absurd hempty.2.1 (plainDump_ne j)
  · rintro rfl
    rfl

theorem plainFields_eq (fields : List (String × Json)) :
    plainFields fields = fields.map fun f => (f.1, plainToQVariant f.2) := by
  induction fields with
  | nil => rfl
  | cons f fields ih => rw [plainFields, ih, List.map_cons]

/-- A codec with the documented behaviour, to run the model on: it reads the texts of a
table and discards all others. -/
def plain (texts : List (List UInt8 × Json)) : JsonCodec where
  qvariantToNlohmann := plainFromQVariant
  nlohmannToQVariant := plainToQVariant
  dump := plainDump
  parse text := (texts.find? fun t => t.1 = text).map Prod.snd
  dump_array := plainDump_array
  toQVariant_object fields _ := congrArg QVariant.map (plainFields_eq fields)

end JsonCodec

end LogosPluginQt
