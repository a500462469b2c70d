import LogosPluginQt.QtAcceptance

namespace LogosPluginQt
set_option autoImplicit true

namespace QVariant

mutual

/-- A predicate of every value that is neither a container nor text or JSON in one. -/
def EveryLeaf (P : QVariant → Prop) : QVariant → Prop
  | .list items => EveryLeafItems P items
  | .map fields => EveryLeafFields P fields
  | .stringList _ | .jsonArray _ | .jsonObject _ => True
  | v => P v

def EveryLeafItems (P : QVariant → Prop) : List QVariant → Prop
  | [] => True
  | v :: rest => EveryLeaf P v ∧ EveryLeafItems P rest

def EveryLeafFields (P : QVariant → Prop) : List (String × QVariant) → Prop
  | [] => True
  | (_, v) :: rest => EveryLeaf P v ∧ EveryLeafFields P rest

end

/-- A way to write values as JSON that goes into the containers and leaves JSON as it is. -/
structure Structural (f : QVariant → Json) : Prop where
  list : ∀ items, f (.list items) = .array (items.map f)
  map : ∀ fields, f (.map fields) = .object (fields.map fun e => (e.1, f e.2))
  stringList : ∀ items, f (.stringList items) = .array (items.map .string)
  jsonArray : ∀ items, f (.jsonArray items) = .array items
  jsonObject : ∀ fields, f (.jsonObject fields) = .object fields

section
variable {f g : QVariant → Json}

mutual

theorem Structural.agree_iff (hf : Structural f) (hg : Structural g) (v : QVariant) :
    f v = g v ↔ v.EveryLeaf fun x => f x = g x := by
  cases v with
  | list items =>
    rw [hf.list, hg.list, Json.array.injEq]
    exact agreeItems_iff hf hg items
  | map fields =>
    rw [hf.map, hg.map, Json.object.injEq]
    exact agreeFields_iff hf hg fields
  | stringList items => exact iff_of_true ((hf.stringList _).trans (hg.stringList _).symm) trivial
  | jsonArray items => exact iff_of_true ((hf.jsonArray _).trans (hg.jsonArray _).symm) trivial
  | jsonObject fields =>
    exact iff_of_true ((hf.jsonObject _).trans (hg.jsonObject _).symm) trivial
  | invalid | bool | integer | double | float | string | byteArray | url | logosResult
  | other => rfl

theorem Structural.agreeItems_iff (hf : Structural f) (hg : Structural g)
    (items : List QVariant) :
    items.map f = items.map g ↔ EveryLeafItems (fun x => f x = g x) items := by
  cases items with
  | nil => exact iff_of_true rfl trivial
  | cons v rest =>
    rw [List.map_cons, List.map_cons, List.cons.injEq, EveryLeafItems]
    exact and_congr (agree_iff hf hg v) (agreeItems_iff hf hg rest)

theorem Structural.agreeFields_iff (hf : Structural f) (hg : Structural g)
    (fields : List (String × QVariant)) :
    (fields.map fun e => (e.1, f e.2)) = (fields.map fun e => (e.1, g e.2)) ↔
      EveryLeafFields (fun x => f x = g x) fields := by
  cases fields with
  | nil => exact iff_of_true rfl trivial
  | cons e rest =>
    obtain ⟨key, v⟩ := e
    rw [List.map_cons, List.map_cons, List.cons.injEq, Prod.mk.injEq, EveryLeafFields]
    exact and_congr ((and_iff_right rfl).trans (agree_iff hf hg v))
      (agreeFields_iff hf hg rest)

end

end

end QVariant

namespace Json

mutual

def EveryLeaf (P : Json → Prop) : Json → Prop
  | .array items => EveryLeafItems P items
  | .object fields => EveryLeafFields P fields
  | j => P j

def EveryLeafItems (P : Json → Prop) : List Json → Prop
  | [] => True
  | j :: rest => EveryLeaf P j ∧ EveryLeafItems P rest

def EveryLeafFields (P : Json → Prop) : List (String × Json) → Prop
  | [] => True
  | (_, j) :: rest => EveryLeaf P j ∧ EveryLeafFields P rest

end

structure Structural (f : Json → Json) : Prop where
  array : ∀ items, f (.array items) = .array (items.map f)
  object : ∀ fields, f (.object fields) = .object (fields.map fun e => (e.1, f e.2))

section
variable {f : Json → Json}

mutual

theorem Structural.fixes_iff (hf : Structural f) (j : Json) :
    f j = j ↔ j.EveryLeaf fun x => f x = x := by
  cases j with
  | array items =>
    rw [hf.array, Json.array.injEq]
    exact fixesItems_iff hf items
  | object fields =>
    rw [hf.object, Json.object.injEq]
    exact fixesFields_iff hf fields
  | null | bool | int | float | string => rfl

theorem Structural.fixesItems_iff (hf : Structural f) (items : List Json) :
    items.map f = items ↔ EveryLeafItems (fun x => f x = x) items := by
  cases items with
  | nil => exact iff_of_true rfl trivial
  | cons j rest =>
    rw [List.map_cons, List.cons.injEq, EveryLeafItems]
    exact and_congr (fixes_iff hf j) (fixesItems_iff hf rest)

theorem Structural.fixesFields_iff (hf : Structural f) (fields : List (String × Json)) :
    (fields.map fun e => (e.1, f e.2)) = fields ↔
      EveryLeafFields (fun x => f x = x) fields := by
  cases fields with
  | nil => exact iff_of_true rfl trivial
  | cons e rest =>
    obtain ⟨key, j⟩ := e
    rw [List.map_cons, List.cons.injEq, Prod.mk.injEq, EveryLeafFields]
    exact and_congr ((and_iff_right rfl).trans (fixes_iff hf j)) (fixesFields_iff hf rest)

end

end

end Json

inductive ContainerType where
  | list | map | jsonArray | jsonObject
deriving DecidableEq

namespace ContainerType

def metaType : ContainerType → MetaType
  | .list => .qVariantList
  | .map => .qVariantMap
  | .jsonArray => .qJsonArray
  | .jsonObject => .qJsonObject

def empty : ContainerType → QVariant
  | .list => .list []
  | .map => .map []
  | .jsonArray => .jsonArray []
  | .jsonObject => .jsonObject []

def shape : ContainerType → Json → Bool
  | .list, .array _ | .jsonArray, .array _ => true
  | .map, .object _ | .jsonObject, .object _ => true
  | _, _ => false

def emptyJson : ContainerType → Json
  | .list | .jsonArray => .array []
  | .map | .jsonObject => .object []

def cast (q : QtLib) (v : QVariant) : ContainerType → QVariant
  | .list => .list (q.toList v)
  | .map => .map (q.toMap v)
  | .jsonArray => .jsonArray (q.toJsonArray v)
  | .jsonObject => .jsonObject (q.toJsonObject v)

end ContainerType

/-- What Qt and the codec document of containers. The codec writes lists and string lists as
arrays, maps as objects, bytes as an object with the one key `_bytes` and JSON as it is; a cast
to a container type is the identity on it, and otherwise the conversion there is, or the empty
container where there is none. -/
structure ContainerLib (q : QtLib) where
  fromVariant : QVariant → Json
  toVariant : Json → QVariant
  encode_structural : QVariant.Structural q.codec.qvariantToNlohmann
  encode_string : ∀ s, q.codec.qvariantToNlohmann (.string s) = .string s
  encode_byteArray : ∀ bytes, ∃ text,
    q.codec.qvariantToNlohmann (.byteArray bytes) = .object [("_bytes", text)]
  fromVariant_structural : QVariant.Structural fromVariant
  fromVariant_byteArray : ∀ bytes, (fromVariant (.byteArray bytes)).isObject = false
  toVariant_array : ∀ items, toVariant (.array items) = .list (items.map toVariant)
  toVariant_object : ∀ fields,
    toVariant (.object fields) = .map (fields.map fun e => (e.1, toVariant e.2))
  fromJsonArray_ok : ∀ j path,
    (∃ items, q.fromJsonArray j path = .ok items) ↔ ∃ items, j = .array items
  fromJsonObject_ok : ∀ j path,
    (∃ fields, q.fromJsonObject j path = .ok fields) ↔ ∃ fields, j = .object fields
  cast_same : ∀ (T : ContainerType) v, v.metaType = T.metaType → T.cast q v = v
  cast_other : ∀ (T : ContainerType) v, v.metaType ≠ T.metaType →
    T.cast q v = (q.convert v T.metaType).getD T.empty
  stringList_list : ∀ items,
    q.convert (.stringList items) .qVariantList = some (.list (items.map .string))
  jsonArray_list : ∀ items,
    q.convert (.jsonArray items) .qVariantList = some (.list (items.map toVariant))
  jsonObject_map : ∀ fields, q.convert (.jsonObject fields) .qVariantMap =
    some (.map (fields.map fun e => (e.1, toVariant e.2)))
  list_jsonArray : ∀ items,
    q.convert (.list items) .qJsonArray = some (.jsonArray (items.map fromVariant))
  stringList_jsonArray : ∀ items,
    q.convert (.stringList items) .qJsonArray = some (.jsonArray (items.map .string))
  map_jsonObject : ∀ fields, q.convert (.map fields) .qJsonObject =
    some (.jsonObject (fields.map fun e => (e.1, fromVariant e.2)))
  byteArray_none : ∀ T : ContainerType, T = .map ∨ T = .jsonObject → ∀ bytes,
    q.convert (.byteArray bytes) T.metaType = none

/-- `[Elem]` for a caller that knows the element type: its vector is decoded, and the list
handed on is the caller's. -/
def qtArgListOf {α : Type} (q : QtLib) (fromJsonVector : Json → String → Except String (List α))
    (v : QVariant) (path : String) : Except String (List QVariant) := do
  let _ ← fromJsonVector (q.codec.qvariantToNlohmann v) path
  return q.toList v

section
variable {q : QtLib} (l : ContainerLib q)

namespace ContainerLib

/-- A value that becomes the JSON it encodes as where it is put into a JSON container. -/
def IsJson (x : QVariant) : Prop := l.fromVariant x = q.codec.qvariantToNlohmann x

/-- A JSON value that encodes as itself where it is put into a list or a map. -/
def ComesBack (j : Json) : Prop := q.codec.qvariantToNlohmann (l.toVariant j) = j

/-- The values that arrive as a container of a type with the encoding they have. -/
def Arrives : ContainerType → QVariant → Prop
  | .list, .list _ | .map, .map _ | .jsonArray, .jsonArray _ | .jsonObject, .jsonObject _ => True
  | .list, .stringList _ | .jsonArray, .stringList _ => True
  | .list, .jsonArray items => Json.EveryLeaf l.ComesBack (.array items)
  | .map, .jsonObject fields => Json.EveryLeaf l.ComesBack (.object fields)
  | .jsonArray, .list items => QVariant.EveryLeaf l.IsJson (.list items)
  | .jsonObject, .map fields => QVariant.EveryLeaf l.IsJson (.map fields)
  -- a type without a conversion of its own arrives as the empty container
  | T, v => match q.convert v T.metaType with
    | none => q.codec.qvariantToNlohmann v = T.emptyJson
    | some c => q.codec.qvariantToNlohmann c = q.codec.qvariantToNlohmann v

variable {l} {T : ContainerType} {v c : QVariant}

theorem encode_empty (l : ContainerLib q) (T : ContainerType) :
    q.codec.qvariantToNlohmann T.empty = T.emptyJson := by
  cases T with
  | list => exact l.encode_structural.list []
  | map => exact l.encode_structural.map []
  | jsonArray => exact l.encode_structural.jsonArray []
  | jsonObject => exact l.encode_structural.jsonObject []

theorem cast_some (l : ContainerLib q) (hne : v.metaType ≠ T.metaType)
    (hc : q.convert v T.metaType = some c) : T.cast q v = c := by
  rw [l.cast_other T v hne, hc, Option.getD_some]

theorem cast_none (l : ContainerLib q) (hne : v.metaType ≠ T.metaType)
    (hc : q.convert v T.metaType = none) : T.cast q v = T.empty := by
  rw [l.cast_other T v hne, hc, Option.getD_none]

theorem cast_encodes_iff (l : ContainerLib q) (hne : v.metaType ≠ T.metaType) :
    q.codec.qvariantToNlohmann (T.cast q v) = q.codec.qvariantToNlohmann v ↔
      match q.convert v T.metaType with
      | none => q.codec.qvariantToNlohmann v = T.emptyJson
      | some c => q.codec.qvariantToNlohmann c = q.codec.qvariantToNlohmann v := by
  cases hc : q.convert v T.metaType with
  | none =>
    rw [l.cast_none hne hc, l.encode_empty]
    exact eq_comm
  | some c => rw [l.cast_some hne hc]

theorem encode_strings (l : ContainerLib q) (items : List String) :
    (items.map QVariant.string).map q.codec.qvariantToNlohmann = items.map Json.string := by
  rw [List.map_map]
  exact List.map_congr_left fun s _ => l.encode_string s

theorem encode_toVariant (l : ContainerLib q) :
    Json.Structural fun j => q.codec.qvariantToNlohmann (l.toVariant j) where
  array items := by
    rw [l.toVariant_array, l.encode_structural.list, List.map_map]
    rfl
  object fields := by
    rw [l.toVariant_object, l.encode_structural.map, List.map_map]
    rfl

theorem list_jsonArray_iff (l : ContainerLib q) (items : List QVariant) :
    q.codec.qvariantToNlohmann (.jsonArray (items.map l.fromVariant)) =
        q.codec.qvariantToNlohmann (.list items) ↔
      QVariant.EveryLeaf l.IsJson (.list items) := by
  rw [l.encode_structural.jsonArray, ← l.fromVariant_structural.list]
  exact l.fromVariant_structural.agree_iff l.encode_structural (.list items)

theorem map_jsonObject_iff (l : ContainerLib q) (fields : List (String × QVariant)) :
    q.codec.qvariantToNlohmann (.jsonObject (fields.map fun e => (e.1, l.fromVariant e.2))) =
        q.codec.qvariantToNlohmann (.map fields) ↔
      QVariant.EveryLeaf l.IsJson (.map fields) := by
  rw [l.encode_structural.jsonObject, ← l.fromVariant_structural.map]
  exact l.fromVariant_structural.agree_iff l.encode_structural (.map fields)

theorem jsonArray_list_iff (l : ContainerLib q) (items : List Json) :
    q.codec.qvariantToNlohmann (.list (items.map l.toVariant)) =
        q.codec.qvariantToNlohmann (.jsonArray items) ↔
      Json.EveryLeaf l.ComesBack (.array items) := by
  rw [l.encode_structural.jsonArray, ← l.toVariant_array]
  exact l.encode_toVariant.fixes_iff (.array items)

theorem jsonObject_map_iff (l : ContainerLib q) (fields : List (String × Json)) :
    q.codec.qvariantToNlohmann (.map (fields.map fun e => (e.1, l.toVariant e.2))) =
        q.codec.qvariantToNlohmann (.jsonObject fields) ↔
      Json.EveryLeaf l.ComesBack (.object fields) := by
  rw [l.encode_structural.jsonObject, ← l.toVariant_object]
  exact l.encode_toVariant.fixes_iff (.object fields)

theorem arrives_iff (l : ContainerLib q) (T : ContainerType) (v : QVariant) :
    q.codec.qvariantToNlohmann (T.cast q v) = q.codec.qvariantToNlohmann v ↔ l.Arrives T v := by
  by_cases hsame : v.metaType = T.metaType
  · have harrives : l.Arrives T v := by
      cases T <;> cases v <;> trivial
    exact iff_of_true (by rw [l.cast_same T v hsame]) harrives
  · cases T with
    | list =>
      cases v with
      | stringList items =>
        rw [l.cast_some hsame (l.stringList_list items), l.encode_structural.list,
          l.encode_strings, l.encode_structural.stringList]
        exact iff_of_true rfl trivial
      | jsonArray items =>
        rw [l.cast_some hsame (l.jsonArray_list items)]
        exact l.jsonArray_list_iff items
      | list => exact absurd rfl hsame
      | _ => exact l.cast_encodes_iff hsame
    | map =>
      cases v with
      | jsonObject fields =>
        rw [l.cast_some hsame (l.jsonObject_map fields)]
        exact l.jsonObject_map_iff fields
      | map => exact absurd rfl hsame
      | _ => exact l.cast_encodes_iff hsame
    | jsonArray =>
      cases v with
      | list items =>
        rw [l.cast_some hsame (l.list_jsonArray items)]
        exact l.list_jsonArray_iff items
      | stringList items =>
        rw [l.cast_some hsame (l.stringList_jsonArray items), l.encode_structural.jsonArray,
          l.encode_structural.stringList]
        exact iff_of_true rfl trivial
      | jsonArray => exact absurd rfl hsame
      | _ => exact l.cast_encodes_iff hsame
    | jsonObject =>
      cases v with
      | map fields =>
        rw [l.cast_some hsame (l.map_jsonObject fields)]
        exact l.map_jsonObject_iff fields
      | jsonObject => exact absurd rfl hsame
      | _ => exact l.cast_encodes_iff hsame

/-- Bytes have the encoding of a map, and arrive as the empty one. -/
theorem not_arrives_byteArray (l : ContainerLib q) (hT : T = .map ∨ T = .jsonObject)
    (bytes : List UInt8) : ¬ l.Arrives T (.byteArray bytes) := by
  obtain ⟨text, henc⟩ := l.encode_byteArray bytes
  have hne : (QVariant.byteArray bytes).metaType ≠ T.metaType := by
    obtain rfl | rfl := hT
    all_goals nofun
  rw [← l.arrives_iff, l.cast_none hne (l.byteArray_none T hT bytes), l.encode_empty, henc]
  obtain rfl | rfl := hT
  all_goals nofun

theorem not_isJson_byteArray (l : ContainerLib q) (bytes : List UInt8) :
    ¬ l.IsJson (.byteArray bytes) := by
  intro h
  obtain ⟨text, henc⟩ := l.encode_byteArray bytes
  have hobject := l.fromVariant_byteArray bytes
  rw [h, henc] at hobject
  cases hobject

end ContainerLib

theorem decodeAs_const {α : Type} {decoded : Except String α} {c out : QVariant} :
    decodeAs decoded (fun _ => c) = .ok out ↔ (∃ x, decoded = .ok x) ∧ out = c := by
  constructor
  · intro h
    obtain ⟨x, hx, rfl⟩ := decodeAs_ok h
    exact ⟨⟨x, hx⟩, rfl⟩
  · rintro ⟨⟨x, rfl⟩, rfl⟩
    rfl

theorem ContainerType.shape_array {T : ContainerType} (hT : T = .list ∨ T = .jsonArray)
    (j : Json) : T.shape j = true ↔ ∃ items, j = .array items := by
  obtain rfl | rfl := hT
  all_goals
    cases j with
    | array items => exact iff_of_true rfl ⟨items, rfl⟩
    | _ => exact iff_of_false nofun nofun

theorem ContainerType.shape_object {T : ContainerType} (hT : T = .map ∨ T = .jsonObject)
    (j : Json) : T.shape j = true ↔ ∃ fields, j = .object fields := by
  obtain rfl | rfl := hT
  all_goals
    cases j with
    | object fields => exact iff_of_true rfl ⟨fields, rfl⟩
    | _ => exact iff_of_false nofun nofun

theorem ContainerLib.qtArgDecode_container (l : ContainerLib q) {T : ContainerType}
    {v out : QVariant} {path : String} : qtArgDecode q v T.metaType path = .ok out ↔
      T.shape (q.codec.qvariantToNlohmann v) = true ∧ out = T.cast q v := by
  cases T with
  | list =>
    rw [ContainerType.shape_array (.inl rfl), ← l.fromJsonArray_ok]
    exact decodeAs_const
  | map =>
    rw [ContainerType.shape_object (.inl rfl), ← l.fromJsonObject_ok]
    exact decodeAs_const
  | jsonArray =>
    rw [ContainerType.shape_array (.inr rfl), ← l.fromJsonArray_ok]
    exact decodeAs_const
  | jsonObject =>
    rw [ContainerType.shape_object (.inr rfl), ← l.fromJsonObject_ok]
    exact decodeAs_const

theorem qtArgListOf_ok {α : Type} {fromJsonVector : Json → String → Except String (List α)}
    {v : QVariant} {path : String} {items : List QVariant} :
    qtArgListOf q fromJsonVector v path = .ok items ↔
      (fromJsonVector (q.codec.qvariantToNlohmann v) path).isOk = true ∧ items = q.toList v := by
  unfold qtArgListOf
  cases fromJsonVector (q.codec.qvariantToNlohmann v) path with
  | error e => exact iff_of_false nofun nofun
  | ok xs =>
    constructor
    · intro h
      exact ⟨rfl, (Except.ok.inj h).symm⟩
    · rintro ⟨_, rfl⟩
      rfl

/-- An accepted container arrives unchanged exactly where the cast keeps it, and so does the
list of a caller that knows the type of its elements. -/
theorem containers_unchanged_iff (l : ContainerLib q) (v : QVariant) (path : String) :
    (∀ T : ContainerType, (∀ out, qtArgDecode q v T.metaType path = .ok out →
        q.codec.qvariantToNlohmann out = q.codec.qvariantToNlohmann v) ↔
      (T.shape (q.codec.qvariantToNlohmann v) = true → l.Arrives T v)) ∧
    ∀ (α : Type) (fromJsonVector : Json → String → Except String (List α)),
      (∀ items, qtArgListOf q fromJsonVector v path = .ok items →
        q.codec.qvariantToNlohmann (.list items) = q.codec.qvariantToNlohmann v) ↔
      ((fromJsonVector (q.codec.qvariantToNlohmann v) path).isOk = true →
        l.Arrives .list v) := by
  constructor
  · intro T
    rw [← l.arrives_iff]
    constructor
    · exact fun h hshape => h _ (l.qtArgDecode_container.2 ⟨hshape, rfl⟩)
    · intro h out hout
      obtain ⟨hshape, rfl⟩ := l.qtArgDecode_container.1 hout
      exact h hshape
  · intro α fromJsonVector
    rw [← l.arrives_iff]
    constructor
    · exact fun h hok => h _ (qtArgListOf_ok.2 ⟨hok, rfl⟩)
    · intro h items hitems
      obtain ⟨hok, rfl⟩ := qtArgListOf_ok.1 hitems
      exact h hok

end

namespace QVariant

mutual

def render (leaf : QVariant → Json) : QVariant → Json
  | .list items => .array (renderItems leaf items)
  | .map fields => .object (renderFields leaf fields)
  | .stringList items => .array (items.map .string)
  | .jsonArray items => .array items
  | .jsonObject fields => .object fields
  | v => leaf v

def renderItems (leaf : QVariant → Json) : List QVariant → List Json
  | [] => []
  | v :: rest => render leaf v :: renderItems leaf rest

def renderFields (leaf : QVariant → Json) : List (String × QVariant) → List (String × Json)
  | [] => []
  | (key, v) :: rest => (key, render leaf v) :: renderFields leaf rest

end

theorem renderItems_eq (leaf : QVariant → Json) (items : List QVariant) :
    renderItems leaf items = items.map (render leaf) := by
  induction items with
  | nil => rfl
  | cons v rest ih => rw [renderItems, ih, List.map_cons]

theorem renderFields_eq (leaf : QVariant → Json) (fields : List (String × QVariant)) :
    renderFields leaf fields = fields.map fun e => (e.1, render leaf e.2) := by
  induction fields with
  | nil => rfl
  | cons e rest ih => rw [renderFields, ih, List.map_cons]

theorem render_structural (leaf : QVariant → Json) : Structural (render leaf) where
  list items := congrArg Json.array (renderItems_eq leaf items)
  map fields := congrArg Json.object (renderFields_eq leaf fields)
  stringList _ := rfl
  jsonArray _ := rfl
  jsonObject _ := rfl

end QVariant

def base64Digit (n : Nat) : Char :=
  "ABCDEFGHIJKLMNOPQRSTUVWXYZabcdefghijklmnopqrstuvwxyz0123456789+/".toList.getD n '='

def base64 : List UInt8 → List Char
  | [] => []
  | [a] => [base64Digit (a.toNat / 4), base64Digit (a.toNat % 4 * 16), '=', '=']
  | [a, b] =>
    [base64Digit (a.toNat / 4), base64Digit (a.toNat % 4 * 16 + b.toNat / 16),
      base64Digit (b.toNat % 16 * 4), '=']
  | a :: b :: c :: rest =>
    base64Digit (a.toNat / 4) :: base64Digit (a.toNat % 4 * 16 + b.toNat / 16) ::
      base64Digit (b.toNat % 16 * 4 + c.toNat / 64) :: base64Digit (c.toNat % 64) ::
      base64 rest

/-- A leaf as the codec writes it, and as `QJsonValue` does: they differ in the bytes. -/
def encodeLeaf : QVariant → Json
  | .byteArray bytes => .object [("_bytes", .string (String.ofList (base64 bytes)))]
  | v => JsonCodec.plainFromQVariant v

def QtLib.containers : QtLib where
  __ := QtLib.plain
  codec := { JsonCodec.plain [] with qvariantToNlohmann := QVariant.render encodeLeaf }
  toList
    | .list items => items
    | .stringList items => items.map .string
    | .jsonArray items => JsonCodec.plainItems items
    | _ => []
  toMap
    | .map fields => fields
    | .jsonObject fields => JsonCodec.plainFields fields
    | _ => []
  toJsonArray
    | .jsonArray items => items
    | .stringList items => items.map .string
    | .list items => QVariant.renderItems JsonCodec.plainFromQVariant items
    | _ => []
  toJsonObject
    | .jsonObject fields => fields
    | .map fields => QVariant.renderFields JsonCodec.plainFromQVariant fields
    | _ => []
  convert v t :=
    match v, t with
    | .stringList items, .qVariantList => some (.list (items.map .string))
    | .jsonArray items, .qVariantList => some (.list (JsonCodec.plainItems items))
    | .jsonObject fields, .qVariantMap => some (.map (JsonCodec.plainFields fields))
    | .list items, .qJsonArray =>
      some (.jsonArray (QVariant.renderItems JsonCodec.plainFromQVariant items))
    | .stringList items, .qJsonArray => some (.jsonArray (items.map .string))
    | .map fields, .qJsonObject =>
      some (.jsonObject (QVariant.renderFields JsonCodec.plainFromQVariant fields))
    | v, t => if v.metaType = t then some v else none

theorem JsonCodec.plainItems_eq (items : List Json) :
    plainItems items = items.map plainToQVariant := by
  induction items with
  | nil => rfl
  | cons j items ih => rw [plainItems, ih, List.map_cons]

def ContainerLib.plain : ContainerLib QtLib.containers where
  fromVariant := QVariant.render JsonCodec.plainFromQVariant
  toVariant := JsonCodec.plainToQVariant
  encode_structural := QVariant.render_structural encodeLeaf
  encode_string _ := rfl
  encode_byteArray _ := ⟨_, rfl⟩
  fromVariant_structural := QVariant.render_structural JsonCodec.plainFromQVariant
  fromVariant_byteArray _ := rfl
  toVariant_array items := congrArg QVariant.list (JsonCodec.plainItems_eq items)
  toVariant_object fields := congrArg QVariant.map (JsonCodec.plainFields_eq fields)
  fromJsonArray_ok j path := by
    cases j with
    | array items => exact iff_of_true ⟨items, rfl⟩ ⟨items, rfl⟩
    | _ => exact iff_of_false nofun nofun
  fromJsonObject_ok j path := by
    cases j with
    | object fields => exact iff_of_true ⟨fields, rfl⟩ ⟨fields, rfl⟩
    | _ => exact iff_of_false nofun nofun
  cast_same T v h := by
    cases T <;> cases v <;> first | rfl | cases h
  cast_other T v h := by
    cases T <;> cases v <;> rfl
  stringList_list _ := rfl
  jsonArray_list items := by rw [← JsonCodec.plainItems_eq]; rfl
  jsonObject_map fields := by rw [← JsonCodec.plainFields_eq]; rfl
  list_jsonArray items := by rw [← QVariant.renderItems_eq]; rfl
  stringList_jsonArray _ := rfl
  map_jsonObject fields := by rw [← QVariant.renderFields_eq]; rfl
  byteArray_none T hT _ := by
    obtain rfl | rfl := hT
    all_goals rfl

/-- What JSON has of its own arrives in a JSON array, and bytes in it do not. -/
theorem containers_unchanged_iff_plain :
    (∀ out, qtArgDecode QtLib.containers (.list [.bool true, .string "a"]) .qJsonArray "arg0" =
        .ok out → QtLib.containers.codec.qvariantToNlohmann out =
          .array [.bool true, .string "a"]) ∧
    ¬ ∀ out, qtArgDecode QtLib.containers (.list [.byteArray [255]]) .qJsonArray "arg0" =
        .ok out → QtLib.containers.codec.qvariantToNlohmann out =
          QtLib.containers.codec.qvariantToNlohmann (.list [.byteArray [255]]) := by
  constructor
  · have hplain := (containers_unchanged_iff .plain (.list [.bool true, .string "a"]) "arg0").1
    exact (hplain .jsonArray).2 fun _ => ⟨rfl, rfl, trivial⟩
  · intro hunchanged
    have hbytes := (containers_unchanged_iff .plain (.list [.byteArray [255]]) "arg0").1
    exact ContainerLib.plain.not_isJson_byteArray [255]
      ((hbytes .jsonArray).1 hunchanged rfl).1

/-- A byte array is taken for a map, and the method runs with the empty one. -/
theorem map_argument_emptied :
    qtArgDecode QtLib.containers (.byteArray [255]) .qVariantMap "arg0" = .ok (.map []) ∧
      QtLib.containers.codec.qvariantToNlohmann (.map []) ≠
        QtLib.containers.codec.qvariantToNlohmann (.byteArray [255]) :=
  ⟨rfl, nofun⟩

end LogosPluginQt
