import Brooklyn.LinkedCollections
import Brooklyn.ReadingLoops
import Brooklyn.StringCoercions

/-!
`StringKeyMapConverter` on maps whose keys are strings. What XStream's writer, reader and
mapper do is left open: a node is read as it was written, and so is an item that the
superclass writes into a node. A node has a text, or else one child.
-/

namespace Brooklyn

inductive MapFault where
  | noSuchClass
  | notStringKey
  | coercion (fault : CoercionFault)

structure XStreamMapper (enums : EnumClasses) (Single Wide Object Item : Type) where
  /-- The name that is serialized for `Map.Entry`. -/
  entryNodeName : JavaString
  serializedClass : CoercedClass → JavaString
  realClass : JavaString → Except MapFault CoercedClass
  writeItem : MapValue enums Single Wide Object → Item
  readItem : Item → Except MapFault (MapValue enums Single Wide Object)
  entryNodeName_isName : XmlName.isName entryNodeName.codePoints = true
  realClass_primitive : ∀ type,
    realClass (serializedClass (.primitive type)) = .ok (.primitive type)
  realClass_enumeration : ∀ constant : EnumConstant enums,
    realClass (serializedClass (.enumeration constant.enumClass)) =
      .ok (.enumeration constant.enumClass)
  readItem_null : readItem (writeItem .null) = .ok .null
  readItem_constant : ∀ constant,
    readItem (writeItem (.constant constant)) = .ok (.constant constant)

inductive NodeContent (Item : Type) where
  | text (text : JavaString)
  | child (item : Item)

structure EntryNode (Item : Type) where
  name : JavaString
  key : Option JavaString
  type : Option JavaString
  content : NodeContent Item

/-- `Identifiers.isValidToken` -/
def isValidToken (token validStartChars validSubsequentChars : JavaString) : Bool :=
  match token with
  | [] => false
  | first :: rest =>
      validStartChars.contains first && rest.all fun unit => validSubsequentChars.contains unit

def javaValidStartChars : List Char :=
  "ABCDEFGHIJKLMNOPQRSTUVWXYZabcdefghijklmnopqrstuvwxyz_".toList

def javaValidNonstartChars : List Char := javaValidStartChars ++ "1234567890".toList

namespace StringKeyMapConverter

def validXmlNodeNameChars : JavaString :=
  JavaString.ofChars (javaValidNonstartChars ++ ".".toList)

def isKeyValidForNodeName (key : JavaString) : Bool :=
  isValidToken key validXmlNodeNameChars validXmlNodeNameChars

/-- What the converter calls, apart from the mapper. -/
structure Calls (enums : EnumClasses) (Single Wide Object Item : Type) where
  mapper : XStreamMapper enums Single Wide Object Item
  floating : Floating Single Wide
  fromMethod : JavaString →
    Option (JavaString → Except CoercionFault (MapValue enums Single Wide Object))
  toUpperCase : JavaString → JavaString

variable {enums : EnumClasses} {Single Wide Object Item : Type}
  (calls : Calls enums Single Wide Object Item)

/-- The name and the attribute `key` of the node of a key. -/
def nodeName (key : JavaString) : JavaString × Option JavaString :=
  if key ≠ calls.mapper.entryNodeName ∧ isKeyValidForNodeName key then (key, none)
  else (calls.mapper.entryNodeName, some key)

/-- The attribute `type` and the content of the node of a value. The class of a constant with
a body is not the one of an enum. -/
def nodeValue (value : MapValue enums Single Wide Object) :
    Option JavaString × NodeContent Item :=
  match value with
  | .string text => (none, .text text)
  | .boxed boxed =>
      (some (calls.mapper.serializedClass (.primitive boxed.type)),
        .text (boxed.toText calls.floating))
  | .constant constant =>
      if enums.hasBody constant.enumClass constant.name then
        (none, .child (calls.mapper.writeItem value))
      else
        (some (calls.mapper.serializedClass (.enumeration constant.enumClass)),
          .text constant.name)
  | .null | .other _ => (none, .child (calls.mapper.writeItem value))

def marshalStringKey (entry : JavaString × MapValue enums Single Wide Object) :
    EntryNode Item where
  name := (nodeName calls entry.1).1
  key := (nodeName calls entry.1).2
  type := (nodeValue calls entry.2).1
  content := (nodeValue calls entry.2).2

def marshal (map : LinkedMap JavaString (MapValue enums Single Wide Object)) :
    List (EntryNode Item) :=
  map.entries.map (marshalStringKey calls)

def coerceText (text : JavaString) (type : CoercedClass) :
    Except MapFault (MapValue enums Single Wide Object) :=
  (StringCoercions.coerce calls.floating calls.fromMethod calls.toUpperCase text type).mapError
    .coercion

def unmarshalValue (type : Option JavaString) (content : NodeContent Item) :
    Except MapFault (MapValue enums Single Wide Object) :=
  match type, content with
  | none, .child item => calls.mapper.readItem item
  | none, .text text => coerceText calls text .string
  | some type, content => do
      let typeC ← calls.mapper.realClass type
      -- The text of a node with a child is empty.
      match content with
      | .text text => coerceText calls text typeC
      | .child _ => coerceText calls [] typeC

/-- A node of an entry without the attribute is one that the superclass reads: its key is not
a string. -/
def unmarshalEntry (node : EntryNode Item) :
    Except MapFault (JavaString × MapValue enums Single Wide Object) := do
  let key := if node.name = calls.mapper.entryNodeName then node.key else some node.name
  match key with
  | none => throw .notStringKey
  | some key => return (key, ← unmarshalValue calls node.type node.content)

/-- `populateMap` of a map that keeps the order of insertion. -/
def unmarshal (nodes : List (EntryNode Item)) :
    Except MapFault (LinkedMap JavaString (MapValue enums Single Wide Object)) :=
  nodes.foldlM (fun map node => do
    let entry ← unmarshalEntry calls node
    return map.put entry.1 entry.2) .empty

/-- The characters of a token that no XML name starts with. -/
def nonstartChars : JavaString := JavaString.ofChars "1234567890.".toList

/-- A key that would be taken for a node name does not start with one of those. -/
def KeySafe (key : JavaString) : Prop :=
  isKeyValidForNodeName key = true → ∀ first ∈ key.head?, first ∉ nonstartChars

/-- A constant that is written by its name is what the `from` method of its class, if there
is one, makes of the name. -/
def ValueSafe (value : MapValue enums Single Wide Object) : Prop :=
  ∀ constant, value = .constant constant →
    enums.hasBody constant.enumClass constant.name = false → ∀ method,
      calls.fromMethod constant.enumClass = some method →
        method constant.name = .ok (.constant constant)

section Keys

/-- What is checked of each of the characters holds of all of them. -/
theorem validChars_all {holds : UInt16 → Prop} [DecidablePred holds]
    (checked : (validXmlNodeNameChars.all fun unit => decide (holds unit)) = true) :
    ∀ unit ∈ validXmlNodeNameChars, holds unit :=
  fun unit member => of_decide_eq_true (List.all_eq_true.mp checked unit member)

theorem validChars_units : ∀ unit ∈ validXmlNodeNameChars, unit < 0xD800 :=
  validChars_all (by decide)

theorem validChars_name : ∀ unit ∈ validXmlNodeNameChars,
    XmlName.inRanges XmlName.nameRanges unit.toNat = true :=
  validChars_all (by decide)

theorem validChars_start : ∀ unit ∈ validXmlNodeNameChars,
    (XmlName.inRanges XmlName.nameStartRanges unit.toNat = true ↔ unit ∉ nonstartChars) :=
  validChars_all (by decide)

/-- A token is an XML name exactly when it starts like one. -/
theorem isName_token {key : JavaString} (valid : isKeyValidForNodeName key = true) :
    XmlName.isName key.codePoints = true ↔ ∀ first ∈ key.head?, first ∉ nonstartChars := by
  unfold isKeyValidForNodeName isValidToken at valid
  cases key with
  | nil => cases valid
  | cons first rest =>
    obtain ⟨first_valid, rest_valid⟩ := Bool.and_eq_true_iff.mp valid
    have first_char := List.contains_iff_mem.mp first_valid
    have rest_chars : ∀ unit ∈ rest, unit ∈ validXmlNodeNameChars := fun unit member =>
      List.contains_iff_mem.mp (List.all_eq_true.mp rest_valid unit member)
    have units : ∀ unit ∈ first :: rest, unit < 0xD800 := fun unit member =>
      validChars_units unit (by
        rcases List.mem_cons.mp member with rfl | later
        · exact first_char
        · exact rest_chars unit later)
    have rest_name : (rest.map UInt16.toNat).all (XmlName.inRanges XmlName.nameRanges) = true := by
      rw [List.all_eq_true]
      intro point member
      obtain ⟨unit, there, rfl⟩ := List.mem_map.mp member
      exact validChars_name unit (rest_chars unit there)
    rw [JavaString.codePoints_of_units units, List.map_cons, XmlName.isName, rest_name,
      Bool.and_true, validChars_start first first_char]
    exact ⟨fun start other same => Option.some.inj same ▸ start, fun start => start first rfl⟩

theorem nodeName_isName_iff (key : JavaString) :
    XmlName.isName (nodeName calls key).1.codePoints = true ↔ KeySafe key := by
  unfold nodeName KeySafe
  split
  · next used =>
    rw [isName_token used.2]
    exact ⟨fun start _ => start, fun start => start used.2⟩
  · next unused =>
    refine iff_of_true calls.mapper.entryNodeName_isName fun valid => ?_
    have same : key = calls.mapper.entryNodeName := by
      by_contra different
      exact unused ⟨different, valid⟩
    rw [← isName_token valid, same]
    exact calls.mapper.entryNodeName_isName

/-- The key is read back from the name or from the attribute. -/
theorem key_read (key : JavaString) :
    (if (nodeName calls key).1 = calls.mapper.entryNodeName then (nodeName calls key).2
      else some (nodeName calls key).1) = some key := by
  unfold nodeName
  split
  · next used => exact if_neg used.1
  · exact if_pos rfl

end Keys

section Values

theorem coerceText_constant (constant : EnumConstant enums) :
    coerceText calls constant.name (.enumeration constant.enumClass) = .ok (.constant constant) ↔
      ∀ method, calls.fromMethod constant.enumClass = some method →
        method constant.name = .ok (.constant constant) := by
  unfold coerceText
  cases found : calls.fromMethod constant.enumClass with
  | some method =>
    rw [StringCoercions.coerce_from _ _ found]
    have mapped : (method constant.name).mapError MapFault.coercion = .ok (.constant constant) ↔
        method constant.name = .ok (.constant constant) := by
      cases method constant.name with
      | error fault => exact ⟨nofun, nofun⟩
      | ok value =>
        exact ⟨fun same => congrArg _ (Except.ok.inj same),
          fun same => congrArg _ (Except.ok.inj same)⟩
    rw [mapped]
    constructor
    · intro same other equal
      cases equal
      exact same
    · intro all
      exact all method rfl
  | none =>
    rw [StringCoercions.coerce_declared _ _ constant found]
    exact iff_of_true rfl nofun

theorem unmarshalValue_typed {type : CoercedClass}
    (real : calls.mapper.realClass (calls.mapper.serializedClass type) = .ok type)
    (text : JavaString) :
    unmarshalValue calls (some (calls.mapper.serializedClass type)) (.text text) =
      coerceText calls text type := by
  simp only [unmarshalValue, real]
  rfl

theorem unmarshalValue_iff {value : MapValue enums Single Wide Object}
    (plain : ∀ object, value ≠ .other object) :
    unmarshalValue calls (nodeValue calls value).1 (nodeValue calls value).2 = .ok value ↔
      ValueSafe calls value := by
  cases value with
  | null => exact iff_of_true calls.mapper.readItem_null nofun
  | string text => exact iff_of_true rfl nofun
  | boxed boxed =>
    have real := calls.mapper.realClass_primitive boxed.type
    refine iff_of_true ((unmarshalValue_typed calls real _).trans ?_) nofun
    exact congrArg (Except.mapError _) (StringCoercions.coerce_toText calls.floating _ boxed)
  | constant constant =>
    cases body : enums.hasBody constant.enumClass constant.name with
    | true =>
      have node : nodeValue calls (.constant constant) =
          (none, .child (calls.mapper.writeItem (.constant constant))) := if_pos body
      rw [node]
      refine iff_of_true (calls.mapper.readItem_constant constant) fun other same bodiless => ?_
      cases same
      rw [body] at bodiless
      cases bodiless
    | false =>
      have node : nodeValue calls (.constant constant) =
          (some (calls.mapper.serializedClass (.enumeration constant.enumClass)),
            .text constant.name) := if_neg (Bool.eq_false_iff.mp body)
      have real := calls.mapper.realClass_enumeration constant
      rw [node, unmarshalValue_typed calls real, coerceText_constant]
      constructor
      · intro method_back other same _
        cases same
        exact method_back
      · intro safe
        exact safe constant rfl body
  | other object => exact absurd rfl (plain object)

theorem unmarshalEntry_iff {entry : JavaString × MapValue enums Single Wide Object}
    (plain : ∀ object, entry.2 ≠ .other object) :
    unmarshalEntry calls (marshalStringKey calls entry) = .ok entry ↔ ValueSafe calls entry.2 := by
  rw [← unmarshalValue_iff calls plain]
  unfold unmarshalEntry marshalStringKey
  dsimp only
  rw [key_read]
  cases read : unmarshalValue calls (nodeValue calls entry.2).1 (nodeValue calls entry.2).2 with
  | error fault => exact ⟨nofun, nofun⟩
  | ok value =>
    exact ⟨fun same => congrArg (Except.ok ∘ Prod.snd) (Except.ok.inj same),
      fun same => congrArg (fun value => Except.ok (entry.1, value)) (Except.ok.inj same)⟩

theorem unmarshalEntry_key {entry read : JavaString × MapValue enums Single Wide Object}
    (done : unmarshalEntry calls (marshalStringKey calls entry) = .ok read) :
    read.1 = entry.1 := by
  unfold unmarshalEntry marshalStringKey at done
  dsimp only at done
  rw [key_read] at done
  cases value : unmarshalValue calls (nodeValue calls entry.2).1 (nodeValue calls entry.2).2 with
  | error fault => rw [value] at done; cases done
  | ok value_read => rw [value] at done; cases done; rfl

end Values

/-- The map comes back when each of its entries does: the keys are always read as written. -/
theorem unmarshal_marshal_iff (map : LinkedMap JavaString (MapValue enums Single Wide Object)) :
    unmarshal calls (marshal calls map) = .ok map ↔
      ∀ entry ∈ map.entries, unmarshalEntry calls (marshalStringKey calls entry) = .ok entry := by
  have keys : (map.entries.map Prod.fst).Nodup := LinkedMap.keys_entries map ▸ map.keys.distinct
  refine (ReadingLoops.foldlM_ok_iff (unmarshalEntry calls) _).trans ?_
  unfold marshal
  rw [List.map_map]
  constructor
  · rintro ⟨reads, same, done⟩ entry member
    have read_keys : reads.map Prod.fst = map.entries.map Prod.fst := by
      have through := congrArg (List.map fun read : Except MapFault
        (JavaString × MapValue enums Single Wide Object) => read.toOption.map Prod.fst) same
      rw [List.map_map, List.map_map] at through
      have each : ∀ other ∈ map.entries, (unmarshalEntry calls
          (marshalStringKey calls other)).toOption.map Prod.fst = some other.1 := by
        intro other there
        obtain ⟨read, _, read_ok⟩ := ReadingLoops.read_of_mem same there
        rw [Function.comp_apply] at read_ok
        rw [read_ok]
        exact congrArg some (unmarshalEntry_key calls read_ok)
      have both : (reads.map Prod.fst).map some = (map.entries.map Prod.fst).map some := by
        rw [List.map_map, List.map_map]
        exact through.symm.trans (List.map_congr_left each)
      exact List.map_injective_iff.mpr (Option.some_injective _) both
    have reads_same : reads = map.entries := by
      rw [← LinkedMap.entries_putAll (read_keys ▸ keys : (reads.map Prod.fst).Nodup)]
      exact congrArg LinkedMap.entries done
    rw [reads_same] at same
    exact List.map_inj_left.mp same entry member
  · intro each
    exact ⟨map.entries, List.map_congr_left each, LinkedMap.putAll_entries map⟩

/-- A map of strings, boxed primitives, enum constants and nulls comes back from nodes with
names of XML exactly when its keys and values are safe. -/
theorem marshal_round_trip_iff (map : LinkedMap JavaString (MapValue enums Single Wide Object))
    (plain : ∀ value ∈ map.values, ∀ object, value ≠ .other object) :
    (unmarshal calls (marshal calls map) = .ok map ∧
        ∀ node ∈ marshal calls map, XmlName.isName node.name.codePoints = true) ↔
      (∀ key ∈ map.keys, KeySafe key) ∧ ∀ value ∈ map.values, ValueSafe calls value := by
  have names : (∀ node ∈ marshal calls map, XmlName.isName node.name.codePoints = true) ↔
      ∀ key ∈ map.keys, KeySafe key := by
    unfold marshal
    rw [List.forall_mem_map]
    change _ ↔ ∀ key ∈ map.keys.elements, KeySafe key
    rw [← LinkedMap.keys_entries, List.forall_mem_map]
    exact forall₂_congr fun entry _ => nodeName_isName_iff calls entry.1
  have values : unmarshal calls (marshal calls map) = .ok map ↔
      ∀ value ∈ map.values, ValueSafe calls value := by
    rw [unmarshal_marshal_iff, LinkedMap.values_entries, List.forall_mem_map]
    refine forall₂_congr fun entry member => unmarshalEntry_iff calls (plain entry.2 ?_)
    rw [LinkedMap.values_entries]
    exact List.mem_map_of_mem member
  rw [names, values, and_comm]

/-- One enum with one constant. -/
def colors : EnumClasses where
  constants enumClass :=
    if enumClass = JavaString.ofChars "Color".toList then [JavaString.ofChars "RED".toList] else []
  hasBody _ _ := false

theorem colors_class {enumClass name : JavaString} (declared : name ∈ colors.constants enumClass) :
    enumClass = JavaString.ofChars "Color".toList := by
  by_contra other
  have no_constants : colors.constants enumClass = [] := if_neg other
  rw [no_constants] at declared
  cases declared

def primitiveName : Primitive → JavaString
  | .integral .byte => JavaString.ofChars "byte".toList
  | .integral .short => JavaString.ofChars "short".toList
  | .integral .int => JavaString.ofChars "int".toList
  | .integral .long => JavaString.ofChars "long".toList
  | .boolean => JavaString.ofChars "boolean".toList
  | .character => JavaString.ofChars "char".toList
  | .float => JavaString.ofChars "float".toList
  | .double => JavaString.ofChars "double".toList

def primitives : List Primitive :=
  [.integral .byte, .integral .short, .integral .int, .integral .long, .boolean, .character,
   .float, .double]

def colorMapper : XStreamMapper colors Unit Unit Empty (MapValue colors Unit Unit Empty) where
  entryNodeName := JavaString.ofChars "entry".toList
  serializedClass
    | .string => JavaString.ofChars "string".toList
    | .primitive type => primitiveName type
    | .enumeration name => name
  realClass name :=
    if name = JavaString.ofChars "string".toList then .ok .string
    else match primitives.find? fun type => primitiveName type = name with
      | some type => .ok (.primitive type)
      | none => .ok (.enumeration name)
  writeItem := id
  readItem := .ok
  entryNodeName_isName := by decide
  realClass_primitive type := by
    rcases type with (_ | _ | _ | _) | _ | _ | _ | _ <;> rfl
  realClass_enumeration constant := by
    rw [colors_class constant.declared]
    rfl
  readItem_null := rfl
  readItem_constant _ := rfl

/-- The only number is one. -/
def oneText : FloatingText Unit where
  toText _ := JavaString.ofChars "1.0".toList
  valueOf text := if text = JavaString.ofChars "1.0".toList then some () else none
  valueOf_toText _ := if_pos rfl

def colorCalls : Calls colors Unit Unit Empty (MapValue colors Unit Unit Empty) where
  mapper := colorMapper
  floating := ⟨oneText, oneText⟩
  fromMethod _ := none
  toUpperCase := id

def colorMap : LinkedMap JavaString (MapValue colors Unit Unit Empty) :=
  LinkedMap.empty.putAll
    [(JavaString.ofChars "a b".toList, .boxed (.integral .int ⟨-5, by decide⟩)),
     (JavaString.ofChars "entry".toList, .boxed (.double ())),
     (JavaString.ofChars "color_1".toList,
       .constant ⟨JavaString.ofChars "Color".toList, JavaString.ofChars "RED".toList, by decide⟩),
     (JavaString.ofChars "none".toList, .null)]

theorem keySafe_of_head {key : JavaString}
    (start : (key.head?.all fun first => !nonstartChars.contains first) = true) : KeySafe key := by
  intro _ first same
  rw [Option.mem_def.mp same, Option.all_some, Bool.not_eq_true'] at start
  exact fun member => Bool.false_ne_true (start.symm.trans (List.contains_iff_mem.mpr member))

theorem colorMap_round_trip :
    unmarshal colorCalls (marshal colorCalls colorMap) = .ok colorMap ∧
      ∀ node ∈ marshal colorCalls colorMap, XmlName.isName node.name.codePoints = true := by
  refine (marshal_round_trip_iff colorCalls colorMap fun _ _ object => object.elim).mpr
    ⟨fun key member => ?_, fun value _ constant _ _ method found => by cases found⟩
  have listed : key ∈ ["a b", "entry", "color_1", "none"].map
      fun text => JavaString.ofChars text.toList := by
    rw [colorMap, LinkedMap.keys_putAll, LinkedSet.mem_addAll] at member
    exact member.resolve_left (LinkedSet.not_mem_empty key)
  obtain ⟨text, there, rfl⟩ := List.mem_map.mp listed
  refine keySafe_of_head ?_
  simp only [List.mem_cons, List.not_mem_nil, or_false] at there
  rcases there with rfl | rfl | rfl | rfl <;> decide

-- The key is `1`, which is not the name of an XML element but is written as one.
theorem digit_key_is_no_name :
    ¬ (unmarshal colorCalls (marshal colorCalls
          (LinkedMap.empty.put (JavaString.ofChars ['1']) .null)) =
        .ok (LinkedMap.empty.put (JavaString.ofChars ['1']) .null) ∧
      ∀ node ∈ marshal colorCalls (LinkedMap.empty.put (JavaString.ofChars ['1']) .null),
        XmlName.isName node.name.codePoints = true) := by
  rintro ⟨_, names⟩
  exact absurd (names (marshalStringKey colorCalls (JavaString.ofChars ['1'], .null))
    (List.mem_map_of_mem ((LinkedMap.mem_entries _ _ _).mpr rfl))) (by decide +kernel)

end StringKeyMapConverter
end Brooklyn
