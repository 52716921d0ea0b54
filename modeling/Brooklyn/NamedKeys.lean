import Brooklyn.KeyedSets
import Brooklyn.LinkedCollections
import Brooklyn.ReadingLoops

/-!
Keys that are written down by name. A key that equals the one a dictionary has under its
name is left to the dictionary, any other is kept beside the names. A name is read back from
what was kept first, then from the dictionary, which may fault or not have it.
-/

namespace Brooklyn.NamedKeys
open ReadingLoops

/-- `equal` is the equality of the keys: it tells keys of different names apart, but maybe
not keys of different signatures. -/
structure Naming (Object Equal Signature : Type) where
  name : Object → String
  equal : Object → Equal
  signature : Object → Signature
  name_of_equal : ∀ {a b}, equal a = equal b → name a = name b
  name_of_signature : ∀ {a b}, signature a = signature b → name a = name b

variable {Object Equal Signature Fault Value : Type}

structure Dictionary (naming : Naming Object Equal Signature) (Fault : Type) where
  knows : Object → Bool
  lookUp : String → Except Fault (Option Object)
  recalled_name : ∀ {name object}, lookUp name = .ok (some object) → naming.name object = name
  recalled : ∀ {object}, knows object = true → lookUp (naming.name object) ≠ .ok none

variable {naming : Naming Object Equal Signature} (dictionary : Dictionary naming Fault)

def written (naming : Naming Object Equal Signature) (entries : List (Object × Value)) :
    LinkedMap String Value :=
  LinkedMap.empty.putAll (entries.map fun entry => (naming.name entry.1, entry.2))

def kept (entries : List (Object × Value)) : LinkedMap String Object :=
  LinkedMap.empty.putAll ((entries.filter fun entry => !dictionary.knows entry.1).map
    fun entry => (naming.name entry.1, entry.1))

def find (keys : LinkedMap String Object) (name : String) : Except Fault (Option Object) :=
  match keys.get name with
  | some object => .ok (some object)
  | none => dictionary.lookUp name

variable [DecidableEq Equal]

/-- What was read back; a name that nothing has is read as `none`. -/
abbrev ReadMap (naming : Naming Object Equal Signature) (Value : Type) :=
  KeyedMap Value fun found : Option Object => found.map naming.equal

abbrev ReadSet (naming : Naming Object Equal Signature) :=
  KeyedSet fun found : Option Object => found.map naming.equal

def readEntries (found : String → Except Fault (Option Object)) (values : LinkedMap String Value) :
    Except Fault (ReadMap naming Value) :=
  values.entries.foldlM (fun map entry => do return map.put (← found entry.1) entry.2)
    KeyedSet.empty

def readNames (found : String → Except Fault (Option Object)) (names : LinkedSet String) :
    Except Fault (ReadSet naming) :=
  names.elements.foldlM (fun set name => do return set.add (← found name)) KeyedSet.empty

section Found
variable {dictionary}

omit [DecidableEq Equal] in
theorem get_kept {entries : List (Object × Value)}
    (distinct : (entries.map (naming.name ·.1)).Nodup) (name : String) (object : Object) :
    (kept dictionary entries).get name = some object ↔
      ∃ value, (object, value) ∈ entries ∧ naming.name object = name ∧
        dictionary.knows object = false := by
  have names : (((entries.filter fun entry => !dictionary.knows entry.1).map
      fun entry => (naming.name entry.1, entry.1)).map Prod.fst).Nodup := by
    rw [List.map_map]
    exact (List.filter_sublist.map _).nodup distinct
  constructor
  · intro found
    rcases LinkedMap.mem_of_get_putAll found with member | before
    · obtain ⟨⟨other, value⟩, there, same⟩ := List.mem_map.mp member
      cases same
      obtain ⟨listed, unknown⟩ := List.mem_filter.mp there
      exact ⟨value, listed, rfl, (Bool.not_eq_true' _).mp unknown⟩
    · cases before
  · rintro ⟨value, listed, rfl, unknown⟩
    refine LinkedMap.get_putAll_of_mem names (List.mem_map.mpr ⟨(object, value), ?_, rfl⟩)
    exact List.mem_filter.mpr ⟨listed, (Bool.not_eq_true' _).mpr unknown⟩

omit [DecidableEq Equal] in
/-- A name is found among the keys that were kept, or else in the dictionary. -/
theorem find_iff {entries : List (Object × Value)}
    (distinct : (entries.map (naming.name ·.1)).Nodup) (name : String) (object : Object) :
    find dictionary (kept dictionary entries) name = .ok (some object) ↔
      (∃ value, (object, value) ∈ entries ∧ naming.name object = name ∧
        dictionary.knows object = false) ∨
      (∀ entry ∈ entries, naming.name entry.1 = name → dictionary.knows entry.1 = true) ∧
        dictionary.lookUp name = .ok (some object) := by
  unfold find
  cases there : (kept dictionary entries).get name with
  | some other =>
    obtain ⟨value, listed, named, unknown⟩ := (get_kept distinct name other).mp there
    rw [← get_kept distinct, there]
    constructor
    · intro same
      cases same
      exact Or.inl rfl
    · rintro (same | ⟨all_known, _⟩)
      · cases same
        rfl
      · rw [all_known _ listed named] at unknown
        cases unknown
  | none =>
    rw [← get_kept distinct, there]
    constructor
    · intro recalled
      refine Or.inr ⟨fun entry listed named => ?_, recalled⟩
      refine Bool.not_eq_false _ ▸ fun unknown => ?_
      have kept_there := (get_kept distinct name entry.1).mpr ⟨entry.2, listed, named, unknown⟩
      rw [there] at kept_there
      cases kept_there
    · rintro (absurd_some | ⟨_, recalled⟩)
      · cases absurd_some
      · exact recalled

omit [DecidableEq Equal] in
theorem find_name {entries : List (Object × Value)} {name : String} {object : Object}
    (distinct : (entries.map (naming.name ·.1)).Nodup)
    (found : find dictionary (kept dictionary entries) name = .ok (some object)) :
    naming.name object = name := by
  rcases (find_iff distinct name object).mp found with ⟨_, _, named, _⟩ | ⟨_, recalled⟩
  · exact named
  · exact dictionary.recalled_name recalled

omit [DecidableEq Equal] in
/-- Under the name of an entry something is found, or the dictionary faults. -/
theorem find_entry {entries : List (Object × Value)} {entry : Object × Value}
    (member : entry ∈ entries) (distinct : (entries.map (naming.name ·.1)).Nodup) :
    find dictionary (kept dictionary entries) (naming.name entry.1) =
      if dictionary.knows entry.1 then dictionary.lookUp (naming.name entry.1)
      else .ok (some entry.1) := by
  unfold find
  split
  · next other there =>
    obtain ⟨value, listed, named, unknown⟩ := (get_kept distinct _ other).mp there
    have same := List.inj_on_of_nodup_map distinct listed member named
    cases same
    rw [if_neg (Bool.eq_false_iff.mp unknown)]
  · next there =>
    rw [if_pos]
    refine Bool.not_eq_false _ ▸ fun unknown => ?_
    have kept_there := (get_kept distinct _ entry.1).mpr ⟨entry.2, member, rfl, unknown⟩
    rw [there] at kept_there
    cases kept_there

end Found

section Entries
variable {dictionary} {entries : List (Object × Value)}

/-- The entries that were read, under what their keys were read as. -/
structure SameEntries (map : ReadMap naming Value) (entries : List (Object × Value)) : Prop where
  whole : ∀ value, (none, value) ∉ map.elements
  listed : ∀ signature value,
    (∃ object, (some object, value) ∈ map.elements ∧ naming.signature object = signature) ↔
      ∃ object, (object, value) ∈ entries ∧ naming.signature object = signature

structure SameNames (set : ReadSet naming) (objects : List Object) : Prop where
  whole : none ∉ set.elements
  listed : ∀ signature,
    (∃ object, some object ∈ set.elements ∧ naming.signature object = signature) ↔
      ∃ object ∈ objects, naming.signature object = signature

def readEntry (found : String → Except Fault (Option Object)) (entry : String × Value) :
    Except Fault (Option Object × Value) := do
  return (← found entry.1, entry.2)

omit [DecidableEq Equal] in
theorem readEntry_ok {found : String → Except Fault (Option Object)} {entry : String × Value}
    {read : Option Object × Value} :
    readEntry found entry = .ok read ↔ found entry.1 = .ok read.1 ∧ entry.2 = read.2 := by
  obtain ⟨object, value⟩ := read
  unfold readEntry
  cases found entry.1 with
  | error fault => exact ⟨nofun, fun both => nomatch both.1⟩
  | ok other =>
    constructor
    · intro same
      cases same
      exact ⟨rfl, rfl⟩
    · rintro ⟨same, rfl⟩
      cases same
      rfl

theorem readEntries_ok_iff {found : String → Except Fault (Option Object)}
    {values : LinkedMap String Value} {map : ReadMap naming Value} :
    readEntries found values = .ok map ↔
      ∃ reads : List (Option Object × Value),
        values.entries.map (readEntry found) = reads.map Except.ok ∧
          reads.foldl (fun map entry => KeyedMap.put map entry.1 entry.2)
            (KeyedSet.empty : ReadMap naming Value) = map := by
  rw [← foldlM_ok_iff (readEntry found)]
  have step : (fun (map : ReadMap naming Value) (entry : String × Value) =>
      (do return map.put (← found entry.1) entry.2 : Except Fault (ReadMap naming Value))) =
      fun map entry => do
        let read ← readEntry found entry
        return map.put read.1 read.2 := by
    funext map entry
    unfold readEntry
    cases found entry.1 <;> rfl
  unfold readEntries
  rw [step]

omit [DecidableEq Equal] in
/-- The keys that were read have the names that were written, so no two of them are equal. -/
theorem nodup_reads {names : List String} {reads : List (Option Object)}
    {found : String → Except Fault (Option Object)}
    (named : ∀ name object, found name = .ok (some object) → naming.name object = name)
    (present : ∀ name ∈ names, found name ≠ .ok none) (distinct : names.Nodup)
    (same : names.map found = reads.map Except.ok) :
    (reads.map (Option.map naming.equal)).Nodup := by
  have names_read : reads.map (Option.map naming.name) = names.map some := by
    have through := congrArg (List.map fun read : Except Fault (Option Object) =>
      match read with
      | .ok object => object.map naming.name
      | .error _ => none) same
    rw [List.map_map, List.map_map] at through
    refine Eq.trans (Eq.symm through) (List.map_congr_left fun name member => ?_)
    obtain ⟨read, _, read_ok⟩ := read_of_mem same member
    cases read with
    | none => exact absurd read_ok (present name member)
    | some object =>
      simp only [Function.comp_apply, read_ok]
      exact congrArg some (named name object read_ok)
  have names_distinct : (reads.map (Option.map naming.name)).Nodup := by
    rw [names_read]
    exact distinct.map fun a b equal => Option.some.inj equal
  rw [List.Nodup, List.pairwise_map] at names_distinct ⊢
  refine names_distinct.imp fun {a b} different equal => different ?_
  cases a with
  | none => cases b with
    | none => rfl
    | some b => cases equal
  | some a => cases b with
    | none => cases equal
    | some b => exact congrArg some (naming.name_of_equal (Option.some.inj equal))

omit [DecidableEq Equal] in
theorem entries_written (distinct : (entries.map (naming.name ·.1)).Nodup) :
    (written naming entries).entries =
      entries.map fun entry => (naming.name entry.1, entry.2) := by
  have names : ((entries.map fun entry => (naming.name entry.1, entry.2)).map Prod.fst) =
      entries.map (naming.name ·.1) := by
    rw [List.map_map]
    rfl
  exact LinkedMap.entries_putAll (names ▸ distinct)

omit [DecidableEq Equal] in
/-- Under the name of an entry no `null` is found. -/
theorem find_entry_some (distinct : (entries.map (naming.name ·.1)).Nodup)
    {entry : Object × Value} (member : entry ∈ entries) :
    find dictionary (kept dictionary entries) (naming.name entry.1) ≠ .ok none := by
  rw [find_entry member distinct]
  split
  · next known => exact dictionary.recalled known
  · exact nofun

theorem mem_readEntries (distinct : (entries.map (naming.name ·.1)).Nodup)
    {map : ReadMap naming Value}
    (done : readEntries (find dictionary (kept dictionary entries)) (written naming entries) =
      .ok map) (found : Option Object) (value : Value) :
    (found, value) ∈ map.elements ↔ ∃ object, (object, value) ∈ entries ∧
      find dictionary (kept dictionary entries) (naming.name object) = .ok found := by
  obtain ⟨reads, same, rfl⟩ := readEntries_ok_iff.mp done
  rw [entries_written distinct] at same
  have firsts : (entries.map (naming.name ·.1)).map
      (find dictionary (kept dictionary entries)) = (reads.map Prod.fst).map Except.ok := by
    have through := congrArg (List.map (Except.map Prod.fst)) same
    simp only [List.map_map] at through ⊢
    refine Eq.trans (List.map_congr_left fun entry _ => ?_) through
    simp only [Function.comp_apply, readEntry]
    cases find dictionary (kept dictionary entries) (naming.name entry.1) <;> rfl
  have classes : (reads.map fun read => read.1.map naming.equal).Nodup := by
    have nodup := nodup_reads (fun name object => find_name distinct) (fun name member => by
      obtain ⟨entry, there, rfl⟩ := List.mem_map.mp member
      exact find_entry_some distinct there) distinct firsts
    rw [List.map_map] at nodup
    exact nodup
  rw [KeyedMap.foldl_put_of_nodup classes]
  refine (mem_reads_iff same (found, value)).trans ?_
  constructor
  · rintro ⟨source, member, read⟩
    obtain ⟨entry, there, rfl⟩ := List.mem_map.mp member
    obtain ⟨found_ok, rfl⟩ := readEntry_ok.mp read
    exact ⟨entry.1, there, found_ok⟩
  · rintro ⟨object, there, found_ok⟩
    exact ⟨_, List.mem_map_of_mem there, readEntry_ok.mpr ⟨found_ok, rfl⟩⟩

theorem readEntries_readable (distinct : (entries.map (naming.name ·.1)).Nodup) :
    (∃ map : ReadMap naming Value,
      readEntries (find dictionary (kept dictionary entries)) (written naming entries) = .ok map) ↔
      ∀ entry ∈ entries, ∃ object,
        find dictionary (kept dictionary entries) (naming.name entry.1) = .ok (some object) := by
  constructor
  · rintro ⟨map, done⟩ entry member
    obtain ⟨reads, same, _⟩ := readEntries_ok_iff.mp done
    rw [entries_written distinct] at same
    obtain ⟨⟨found, _⟩, _, read⟩ := read_of_mem same (List.mem_map_of_mem member)
    have found_ok := (readEntry_ok.mp read).1
    cases found with
    | none => exact absurd found_ok (find_entry_some distinct member)
    | some object => exact ⟨object, found_ok⟩
  · intro readable
    obtain ⟨reads, same⟩ := exists_reads (readEntry (find dictionary (kept dictionary entries)))
      fun source (member : source ∈ (written naming entries).entries) => by
        rw [entries_written distinct] at member
        obtain ⟨entry, there, rfl⟩ := List.mem_map.mp member
        obtain ⟨object, found_ok⟩ := readable entry there
        exact ⟨(some object, entry.2), readEntry_ok.mpr ⟨found_ok, rfl⟩⟩
    exact ⟨_, readEntries_ok_iff.mpr ⟨reads, same, rfl⟩⟩

/-- Entries come back when the dictionary, asked for the name of a key it knows, gives a key
of the same signature. -/
theorem readEntries_same_iff (distinct : (entries.map (naming.name ·.1)).Nodup) :
    (∃ map : ReadMap naming Value,
      readEntries (find dictionary (kept dictionary entries)) (written naming entries) = .ok map ∧
        SameEntries map entries) ↔
      ∀ entry ∈ entries, dictionary.knows entry.1 = true → ∃ object,
        dictionary.lookUp (naming.name entry.1) = .ok (some object) ∧
          naming.signature object = naming.signature entry.1 := by
  constructor
  · rintro ⟨map, done, same⟩ entry member known
    obtain ⟨object, there, signature⟩ := (same.listed _ entry.2).mpr ⟨entry.1, member, rfl⟩
    obtain ⟨source, listed, found_ok⟩ := (mem_readEntries distinct done _ _).mp there
    have named : naming.name source = naming.name entry.1 :=
      (find_name distinct found_ok).symm.trans (naming.name_of_signature signature)
    rw [named, find_entry member distinct, if_pos known] at found_ok
    exact ⟨object, found_ok, signature⟩
  · intro recovered
    have found_same : ∀ entry ∈ entries, ∃ object,
        find dictionary (kept dictionary entries) (naming.name entry.1) = .ok (some object) ∧
          naming.signature object = naming.signature entry.1 := fun entry member => by
      rw [find_entry member distinct]
      split
      · next known => exact recovered entry member known
      · exact ⟨entry.1, rfl, rfl⟩
    obtain ⟨map, done⟩ := (readEntries_readable distinct).mpr fun entry member =>
      (found_same entry member).imp fun _ found => found.1
    refine ⟨map, done, ⟨fun value there => ?_, fun signature value => ?_⟩⟩
    · obtain ⟨object, member, found_ok⟩ := (mem_readEntries distinct done _ _).mp there
      exact find_entry_some distinct member found_ok
    · constructor
      · rintro ⟨object, there, rfl⟩
        obtain ⟨source, member, found_ok⟩ := (mem_readEntries distinct done _ _).mp there
        obtain ⟨other, other_ok, signature⟩ := found_same _ member
        rw [found_ok] at other_ok
        cases other_ok
        exact ⟨source, member, signature.symm⟩
      · rintro ⟨source, member, rfl⟩
        obtain ⟨object, found_ok, signature⟩ := found_same _ member
        exact ⟨object, (mem_readEntries distinct done _ _).mpr ⟨source, member, found_ok⟩,
          signature⟩

end Entries

section Names
variable {dictionary}

def writtenNames (naming : Naming Object Equal Signature) (objects : List Object) :
    LinkedSet String :=
  LinkedSet.empty.addAll (objects.map naming.name)

omit [DecidableEq Equal] in
theorem mem_writtenNames (objects : List Object) (name : String) :
    name ∈ (writtenNames naming objects).elements ↔ ∃ object ∈ objects, naming.name object = name :=
  (LinkedSet.mem_addAll _ _ name).trans
    ((or_iff_right (LinkedSet.not_mem_empty name)).trans List.mem_map)

omit [DecidableEq Equal] in
/-- Two finds that equal one another are one: they have one name. -/
theorem reads_determined {found : String → Except Fault (Option Object)}
    (named : ∀ name object, found name = .ok (some object) → naming.name object = name)
    {names : List String} {reads : List (Option Object)}
    (same : names.map found = reads.map Except.ok) :
    ∀ a ∈ reads, ∀ b ∈ reads, a.map naming.equal = b.map naming.equal → a = b := by
  intro a there b there' equal
  obtain ⟨name, _, a_ok⟩ := (mem_reads_iff same a).mp there
  obtain ⟨name', _, b_ok⟩ := (mem_reads_iff same b).mp there'
  cases a with
  | none => cases b with
    | none => rfl
    | some b => cases equal
  | some a => cases b with
    | none => cases equal
    | some b =>
      have names := naming.name_of_equal (Option.some.inj equal)
      rw [named _ _ a_ok, named _ _ b_ok] at names
      rw [names, b_ok] at a_ok
      cases a_ok
      rfl

theorem mem_readNames {found : String → Except Fault (Option Object)}
    (named : ∀ name object, found name = .ok (some object) → naming.name object = name)
    {objects : List Object} {set : ReadSet naming}
    (done : readNames found (writtenNames naming objects) = .ok set) (read : Option Object) :
    read ∈ set.elements ↔ ∃ object ∈ objects, found (naming.name object) = .ok read := by
  obtain ⟨reads, same, rfl⟩ := (foldlM_ok_iff found _).mp done
  refine (KeyedSet.mem_ofList (reads_determined named same) read).trans
    ((mem_reads_iff same read).trans ?_)
  constructor
  · rintro ⟨name, member, read_ok⟩
    obtain ⟨object, there, rfl⟩ := (mem_writtenNames objects name).mp member
    exact ⟨object, there, read_ok⟩
  · rintro ⟨object, there, read_ok⟩
    exact ⟨_, (mem_writtenNames objects _).mpr ⟨object, there, rfl⟩, read_ok⟩

/-- Names come back as keys when each is found, with the signature of a key it was
written for. -/
theorem readNames_same_iff {found : String → Except Fault (Option Object)}
    (named : ∀ name object, found name = .ok (some object) → naming.name object = name)
    (objects : List Object) :
    (∃ set : ReadSet naming, readNames found (writtenNames naming objects) = .ok set ∧
      SameNames set objects) ↔
      ∀ object ∈ objects, ∃ other, found (naming.name object) = .ok (some other) ∧
        naming.signature other = naming.signature object := by
  constructor
  · rintro ⟨set, done, same⟩ object member
    obtain ⟨other, there, signature⟩ := (same.listed _).mpr ⟨object, member, rfl⟩
    obtain ⟨source, _, found_ok⟩ := (mem_readNames named done _).mp there
    have names : naming.name source = naming.name object :=
      (named _ _ found_ok).symm.trans (naming.name_of_signature signature)
    exact ⟨other, names ▸ found_ok, signature⟩
  · intro recovered
    obtain ⟨reads, same⟩ := exists_reads found
      fun name (member : name ∈ (writtenNames naming objects).elements) => by
        obtain ⟨object, there, rfl⟩ := (mem_writtenNames objects name).mp member
        obtain ⟨other, found_ok, _⟩ := recovered object there
        exact ⟨some other, found_ok⟩
    have done := (foldlM_ok_iff found KeyedSet.add).mpr
      ⟨reads, same, (rfl : reads.foldl KeyedSet.add (KeyedSet.empty : ReadSet naming) = _)⟩
    refine ⟨_, done, ⟨fun there => ?_, fun signature => ?_⟩⟩
    · obtain ⟨object, member, found_none⟩ := (mem_readNames named done _).mp there
      obtain ⟨other, found_ok, _⟩ := recovered object member
      rw [found_none] at found_ok
      cases found_ok
    · constructor
      · rintro ⟨object, there, rfl⟩
        obtain ⟨source, member, found_ok⟩ := (mem_readNames named done _).mp there
        obtain ⟨other, other_ok, signature⟩ := recovered source member
        rw [found_ok] at other_ok
        cases other_ok
        exact ⟨source, member, signature.symm⟩
      · rintro ⟨source, member, rfl⟩
        obtain ⟨other, found_ok, signature⟩ := recovered source member
        exact ⟨other, (mem_readNames named done _).mpr ⟨source, member, found_ok⟩, signature⟩

end Names

end Brooklyn.NamedKeys
