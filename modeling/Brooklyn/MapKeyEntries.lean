import Brooklyn.ListKeyItems

/-!
What `MapConfigKey`s hold in one map. A sub-key is named by its key and its sub-name, and is told
apart by its parent; but it is found by its name alone, and the key that is held under a name
stays. `submap` is what a key has of the map, `documented` what a change should make of it.
-/

namespace Brooklyn

variable {Object : Type}

inductive ExtractionFault (Fault : Type) where
  | indexOutOfBounds
  | unresolved (fault : Fault)

namespace ConfigKey
variable (key : ConfigKey)

/-- The name without that of the key and the dot. -/
def extractSubKeyName (name : String) : Option String :=
  if key.name.length + 1 ≤ name.length then
    some (String.ofList (name.toList.drop (key.name.length + 1)))
  else none

theorem extractSubKeyName_subKey (subName : String) :
    key.extractSubKeyName (key.subKey subName).name = some subName := by
  have shape : (key.subKey subName).name.toList = (key.name ++ ".").toList ++ subName.toList := by
    simp [subKey]
  have prefixLength : (key.name ++ ".").toList.length = key.name.length + 1 := by
    rw [String.length_toList, String.length_append]
    rfl
  have long : key.name.length + 1 ≤ (key.subKey subName).name.length := by
    rw [← String.length_toList (s := (key.subKey subName).name), shape, List.length_append,
      prefixLength]
    exact Nat.le_add_right _ _
  unfold extractSubKeyName
  rw [if_pos long, shape, ← prefixLength, List.drop_left,
    String.ofList_toList]

theorem subKey_injective {first second : String}
    (same : (key.subKey first).name = (key.subKey second).name) : first = second := by
  have names := congrArg key.extractSubKeyName same
  rw [extractSubKeyName_subKey, extractSubKeyName_subKey] at names
  exact Option.some.inj names

/-- The sub-name of a sub-key. -/
def subName (name : String) : Option String :=
  (key.extractSubKeyName name).filter fun subName => (key.subKey subName).name = name

theorem subName_eq_some (name subName : String) :
    key.subName name = some subName ↔ (key.subKey subName).name = name := by
  rw [ConfigKey.subName, Option.filter_eq_some_iff, decide_eq_true_iff]
  refine ⟨And.right, fun named => ⟨?_, named⟩⟩
  rw [← named, extractSubKeyName_subKey]

section Extraction
variable {Fault Result : Type} (resolve : ConfigValue Object → Except Fault Result)

def extractEntry (result : LinkedMap String Result)
    (entry : String × KeyKind × ConfigValue Object) :
    Except (ExtractionFault Fault) (LinkedMap String Result) :=
  if key.isSubKey entry.2.1 then
    match key.extractSubKeyName entry.1, resolve entry.2.2 with
    -- `substring` throws before the value is resolved.
    | none, _ => .error .indexOutOfBounds
    | some _, .error fault => .error (.unresolved fault)
    | some subName, .ok value => .ok (result.put subName value)
  else .ok result

/-- `extractValue` of a `MapConfigKey`. -/
def extractMap (vals : ConfigMap Object) :
    Except (ExtractionFault Fault) (LinkedMap String Result) :=
  vals.entries.foldlM (key.extractEntry resolve) .empty

end Extraction

/-- The sub-name an entry is under, if the key is a sub-key. -/
def entryName (name : String) (held : KeyKind × ConfigValue Object) : Option String :=
  if key.isSubKey held.1 then key.subName name else none

/-- What the key has in the map: the value under each sub-name. -/
def submap (vals : ConfigMap Object) : LinkedMap String (ConfigValue Object) where
  get := fun subName => (vals.get (key.subKey subName).name).bind key.item
  keys := ⟨vals.listing key.entryName, by
    refine vals.keys.distinct.filterMap fun first second subName here there => ?_
    simp only [Option.mem_def, Option.bind_eq_some_iff, entryName, Option.ite_none_right_eq_some,
      subName_eq_some] at here there
    obtain ⟨_, _, _, rfl⟩ := here
    obtain ⟨_, _, _, rfl⟩ := there
    rfl⟩
  defined := fun subName => by
    change subName ∈ vals.listing key.entryName ↔ _
    simp only [LinkedMap.mem_listing, entryName, Option.ite_none_right_eq_some, subName_eq_some]
    cases held : vals.get (key.subKey subName).name with
    | none =>
      refine iff_of_false ?_ (by simp)
      rintro ⟨_, _, found, _, rfl⟩
      rw [held] at found
      cases found
    | some entry =>
      rw [Option.bind_some, item]
      by_cases sub : key.isSubKey entry.1 = true
      · exact iff_of_true ⟨_, entry, held, sub, rfl⟩ (by rw [if_pos sub]; rfl)
      · refine iff_of_false ?_ (by rw [if_neg sub]; simp)
        rintro ⟨_, _, found, own, rfl⟩
        rw [held] at found
        cases found
        exact sub own

/-- A sub-key is named as `subKey` names it. -/
def Proper (held : ConfigKey) : Prop :=
  ∀ parent, held.kind = .subElement parent → ∃ subName, held.name = parent ++ "." ++ subName

end ConfigKey

namespace ConfigMap

def Proper (vals : ConfigMap Object) : Prop :=
  ∀ name held, vals.get name = some held → ConfigKey.Proper ⟨name, held.1⟩

end ConfigMap

namespace ConfigKey
variable {key : ConfigKey}

/-- A proper sub-key is one that `subKey` makes. -/
theorem eq_subKey {contender : ConfigKey} (proper : contender.Proper)
    (sub : key.isSubKey contender.kind = true) : ∃ subName, contender = key.subKey subName := by
  have kind : contender.kind = .subElement key.name := by simpa [isSubKey] using sub
  obtain ⟨subName, named⟩ := proper key.name kind
  exact ⟨subName, by rw [subKey, ← named, ← kind]⟩

theorem proper_subKey (subName : String) : (key.subKey subName).Proper := by
  rintro parent ⟨⟩
  exact ⟨subName, rfl⟩

theorem proper_put {vals : ConfigMap Object} (proper : vals.Proper) {put : ConfigKey}
    (named : put.Proper) (value : ConfigValue Object) : (vals.put put value).Proper := by
  intro name held found
  rw [ConfigMap.put, LinkedMap.get_put] at found
  split at found
  · next same =>
    cases found
    subst same
    cases there : vals.get put.name with
    | none => exact named
    | some entry => exact proper put.name entry there
  · exact proper name held found

theorem proper_clear {vals : ConfigMap Object} (proper : vals.Proper) :
    (key.clear vals).Proper := by
  intro name held found
  rw [clear, LinkedMap.get_removeAll] at found
  split at found
  · cases found
  · exact proper name held found

section Extracts
variable {Fault Result : Type} (resolve : ConfigValue Object → Except Fault Result)

/-- The values of a map resolved one after another. -/
def resolveAll (held : LinkedMap String (ConfigValue Object)) :
    Except (ExtractionFault Fault) (LinkedMap String Result) :=
  held.entries.foldlM (fun result entry =>
    match resolve entry.2 with
    | .error fault => .error (.unresolved fault)
    | .ok value => .ok (result.put entry.1 value)) .empty

/-- What an entry is for the key. -/
def ownEntry (entry : String × KeyKind × ConfigValue Object) :
    Option (String × ConfigValue Object) :=
  (key.entryName entry.1 entry.2).map (·, entry.2.2)

theorem entries_submap (vals : ConfigMap Object) :
    (key.submap vals).entries = vals.entries.filterMap key.ownEntry := by
  change (vals.keys.elements.filterMap _).filterMap _ = (vals.keys.elements.filterMap _).filterMap _
  rw [List.filterMap_filterMap, List.filterMap_filterMap]
  refine List.filterMap_congr fun name _ => ?_
  cases held : vals.get name with
  | none => rfl
  | some entry =>
    rw [Option.bind_some, Option.map_some, Option.bind_some, ownEntry]
    cases named : key.entryName name entry with
    | none => rfl
    | some subName =>
      rw [entryName, Option.ite_none_right_eq_some, subName_eq_some] at named
      obtain ⟨sub, rfl⟩ := named
      simp [submap, held, item, sub]

theorem extractEntry_eq {entry : String × KeyKind × ConfigValue Object}
    (proper : ConfigKey.Proper ⟨entry.1, entry.2.1⟩) (result : LinkedMap String Result) :
    key.extractEntry resolve result entry =
      match key.ownEntry entry with
      | none => .ok result
      | some own => match resolve own.2 with
        | .error fault => .error (.unresolved fault)
        | .ok value => .ok (result.put own.1 value) := by
  unfold extractEntry ownEntry entryName
  by_cases sub : key.isSubKey entry.2.1 = true
  · obtain ⟨subName, same⟩ := eq_subKey proper sub
    have named : (key.subKey subName).name = entry.1 := (congrArg name same).symm
    rw [if_pos sub, if_pos sub, (subName_eq_some key _ _).mpr named, ← named,
      extractSubKeyName_subKey, Option.map_some]
    dsimp only
    cases resolve entry.2.2 <;> rfl
  · rw [if_neg sub, if_neg sub]
    rfl

theorem extractMap_eq {vals : ConfigMap Object} (proper : vals.Proper) :
    key.extractMap resolve vals = resolveAll resolve (key.submap vals) := by
  have all : ∀ entry ∈ vals.entries, ConfigKey.Proper ⟨entry.1, entry.2.1⟩ :=
    fun entry member => proper _ _ ((vals.mem_entries _ _).mp member)
  unfold extractMap resolveAll
  rw [entries_submap]
  generalize LinkedMap.empty = result
  generalize vals.entries = entries at all ⊢
  induction entries generalizing result with
  | nil => rfl
  | cons entry rest ih =>
    rw [List.foldlM_cons, extractEntry_eq resolve (all entry List.mem_cons_self)]
    have later (result : LinkedMap String Result) :=
      ih result fun other member => all other (List.mem_cons_of_mem _ member)
    cases own : key.ownEntry entry with
    | none =>
      rw [List.filterMap_cons_none own]
      exact later result
    | some named =>
      rw [List.filterMap_cons_some own, List.foldlM_cons]
      dsimp only
      cases resolve named.2 with
      | error fault => rfl
      | ok value => exact later _

theorem resolveAll_ok (held : LinkedMap String (ConfigValue Object)) :
    resolveAll (Except.ok (ε := Unit)) held = .ok held := by
  have put (entries : List (String × ConfigValue Object)) (result : LinkedMap String _) :
      entries.foldlM (fun result entry =>
        (.ok (result.put entry.1 entry.2) :
          Except (ExtractionFault Unit) (LinkedMap String (ConfigValue Object)))) result =
        .ok (result.putAll entries) := by
    induction entries generalizing result with
    | nil => rfl
    | cons entry rest ih => exact ih _
  exact (put held.entries .empty).trans (congrArg _ held.putAll_entries)

/-- However values are resolved, what is expected is extracted. -/
def ExtractsMap (key : ConfigKey) (vals : ConfigMap Object)
    (expected : LinkedMap String (ConfigValue Object)) : Prop :=
  ∀ (Fault Result : Type) (resolve : ConfigValue Object → Except Fault Result),
    key.extractMap resolve vals = resolveAll resolve expected

theorem extractsMap_iff {vals : ConfigMap Object} (proper : vals.Proper)
    (expected : LinkedMap String (ConfigValue Object)) :
    key.ExtractsMap vals expected ↔ key.submap vals = expected := by
  refine ⟨fun extracts => ?_, ?_⟩
  · have same := extracts Unit (ConfigValue Object) .ok
    rw [extractMap_eq _ proper, resolveAll_ok, resolveAll_ok] at same
    exact Except.ok.inj same
  · rintro rfl
    exact fun _ _ resolve => extractMap_eq resolve proper

end Extracts

/-- The name of the sub-key is held by a key that is none of this one's. -/
def Taken (key : ConfigKey) (vals : ConfigMap Object) (subName : String) : Prop :=
  ∃ held, vals.get (key.subKey subName).name = some held ∧ key.isSubKey held.1 = false

theorem item_foreign {held : KeyKind × ConfigValue Object}
    (foreign : key.isSubKey held.1 = false) : key.item held = none :=
  if_neg (by simp [foreign])

theorem entryName_foreign {name : String} {held : KeyKind × ConfigValue Object}
    (foreign : key.isSubKey held.1 = false) : key.entryName name held = none :=
  if_neg (by simp [foreign])

section Puts
variable {vals : ConfigMap Object} {subName : String} {value : ConfigValue Object}

theorem isSubKey_subKey : key.isSubKey (key.subKey subName).kind = true := by
  simp [isSubKey, subKey]

/-- The kind that is held under a name stays when something is put. -/
theorem get_put_held {name : String} {held : KeyKind × ConfigValue Object}
    (present : vals.get name = some held) (put : ConfigKey) :
    ∃ value', (vals.put put value).get name = some (held.1, value') := by
  rw [ConfigMap.put, LinkedMap.get_put]
  split
  · next same => exact ⟨value, by rw [← same, present]; rfl⟩
  · exact ⟨held.2, present⟩

theorem taken_put {other : String} (taken : key.Taken vals other) (put : ConfigKey) :
    key.Taken (vals.put put value) other := by
  obtain ⟨held, present, foreign⟩ := taken
  obtain ⟨_, still⟩ := get_put_held present put
  exact ⟨_, still, foreign⟩

/-- Only a put of another key takes a name. -/
theorem taken_of_put_subKey {other : String}
    (taken : key.Taken (vals.put (key.subKey subName) value) other) : key.Taken vals other := by
  obtain ⟨held, present, foreign⟩ := taken
  cases there : vals.get (key.subKey other).name with
  | some before =>
    obtain ⟨_, still⟩ := @get_put_held _ _ value _ _ there (key.subKey subName)
    rw [still] at present
    cases present
    exact ⟨before, there, foreign⟩
  | none =>
    rw [ConfigMap.put, LinkedMap.get_put] at present
    split at present
    · next same =>
      cases present
      rw [← same, there, Option.map_none, Option.getD_none, isSubKey_subKey] at foreign
      cases foreign
    · rw [there] at present
      cases present

theorem taken_clear {other : String} :
    key.Taken (key.clear vals) other ↔ key.Taken vals other := by
  unfold Taken
  by_cases own : (key.subKey other).name ∈ key.keysToRemove vals
  · obtain ⟨kind, value, present, sub⟩ := (key.mem_keysToRemove _ _).mp own
    rw [clear, LinkedMap.get_removeAll, if_pos own, present]
    refine iff_of_false (by rintro ⟨_, ⟨⟩, _⟩) ?_
    rintro ⟨_, ⟨⟩, foreign⟩
    rw [sub] at foreign
    cases foreign
  · rw [key.get_clear own]

/-- A taken sub-name is not extracted. -/
theorem submap_of_taken (taken : key.Taken vals subName) :
    (key.submap vals).get subName = none := by
  obtain ⟨held, present, foreign⟩ := taken
  change (vals.get (key.subKey subName).name).bind key.item = none
  rw [present, Option.bind_some, item_foreign foreign]

theorem submap_put (untaken : ¬ key.Taken vals subName) :
    key.submap (vals.put (key.subKey subName) value) = (key.submap vals).put subName value := by
  have named : key.subName (key.subKey subName).name = some subName :=
    (key.subName_eq_some _ _).mpr rfl
  refine LinkedMap.ext_iff.mpr ⟨funext fun other => ?_, ?_⟩
  · rw [LinkedMap.get_put]
    change ((vals.put (key.subKey subName) value).get (key.subKey other).name).bind key.item = _
    rw [ConfigMap.put, LinkedMap.get_put]
    by_cases same : other = subName
    · subst same
      rw [if_pos rfl, if_pos rfl, Option.bind_some]
      refine if_pos ?_
      cases held : vals.get (key.subKey other).name with
      | none => exact @isSubKey_subKey key other
      | some entry => exact Bool.not_eq_false _ |>.mp fun foreign => untaken ⟨entry, held, foreign⟩
    · rw [if_neg fun names => same (key.subKey_injective names), if_neg same]
      rfl
  · -- A name that is held keeps its place, a new one comes last.
    change LinkedMap.listing _ key.entryName =
      (LinkedSet.add (key.submap vals).keys subName).elements
    cases held : vals.get (key.subKey subName).name with
    | some entry =>
      have sub : key.isSubKey entry.1 = true :=
        Bool.not_eq_false _ |>.mp fun foreign => untaken ⟨entry, held, foreign⟩
      have there : subName ∈ (key.submap vals).keys := by
        rw [(key.submap vals).defined]
        change ((vals.get (key.subKey subName).name).bind key.item).isSome = true
        rw [held, Option.bind_some, item, if_pos sub]
        rfl
      rw [LinkedSet.add_of_mem there, ConfigMap.put, held]
      exact LinkedMap.listing_put_same held rfl
    | none =>
      have absent : subName ∉ (key.submap vals).keys := by
        rw [← LinkedMap.get_eq_none_iff]
        change (vals.get (key.subKey subName).name).bind key.item = none
        rw [held, Option.bind_none]
      rw [LinkedSet.elements_add_of_not_mem absent, ConfigMap.put, held,
        LinkedMap.listing_put_new ((LinkedMap.get_eq_none_iff _ _).mp held)]
      refine congrArg (vals.listing key.entryName ++ ·) ?_
      change (key.entryName (key.subKey subName).name ((key.subKey subName).kind, value)).toList = _
      rw [entryName, if_pos isSubKey_subKey, named]
      rfl

theorem submap_clear : key.submap (key.clear vals) = .empty := by
  have cleared : key.keysToRemove (key.clear vals) = [] := keysToRemove_clear vals
  have gone (name : String) {held : KeyKind × ConfigValue Object}
      (present : (key.clear vals).get name = some held) : key.isSubKey held.1 ≠ true := by
    intro sub
    have member := (key.mem_keysToRemove _ name).mpr ⟨held.1, held.2, present, sub⟩
    rw [cleared] at member
    cases member
  refine LinkedMap.ext_iff.mpr ⟨funext fun other => ?_, ?_⟩
  · change ((key.clear vals).get (key.subKey other).name).bind key.item = none
    cases held : (key.clear vals).get (key.subKey other).name with
    | none => rfl
    | some entry => exact if_neg (gone _ held)
  · exact LinkedMap.listing_eq_nil fun name _ present => if_neg (gone name present)

/-- Two maps in which the key has the same are alike for it. -/
theorem submap_congr {after : ConfigMap Object}
    (get : ∀ subName, (after.get (key.subKey subName).name).bind key.item =
      (vals.get (key.subKey subName).name).bind key.item)
    (listing : after.listing key.entryName = vals.listing key.entryName) :
    key.submap after = key.submap vals :=
  LinkedMap.ext_iff.mpr ⟨funext get, listing⟩

section Others
variable {other : ConfigKey}

theorem not_isSubKey_other (different : key.name ≠ other.name) {kind : KeyKind}
    (sub : other.isSubKey kind = true) : key.isSubKey kind = false := by
  have same : kind = .subElement other.name := by simpa [isSubKey] using sub
  rw [same]
  simpa [isSubKey] using fun names => different names.symm

/-- A put of another key under a name that is not taken is passed over. -/
theorem submap_put_other (different : key.name ≠ other.name)
    (untaken : ¬ other.Taken vals subName) :
    key.submap (vals.put (other.subKey subName) value) = key.submap vals := by
  have before (held : KeyKind × ConfigValue Object)
      (present : vals.get (other.subKey subName).name = some held) :
      key.isSubKey held.1 = false :=
    not_isSubKey_other different
      (Bool.not_eq_false _ |>.mp fun foreign => untaken ⟨held, present, foreign⟩)
  have after : key.isSubKey (((vals.get (other.subKey subName).name).map Prod.fst).getD
      (other.subKey subName).kind) = false := by
    cases held : vals.get (other.subKey subName).name with
    | none => exact not_isSubKey_other different isSubKey_subKey
    | some entry => exact before entry held
  refine submap_congr (fun name => ?_) (LinkedMap.listing_put_passed (entryName_foreign after)
    fun held present => entryName_foreign (before held present))
  rw [ConfigMap.put, LinkedMap.get_put]
  split
  · next same =>
    rw [same, Option.bind_some, item_foreign after]
    cases held : vals.get (other.subKey subName).name with
    | none => rfl
    | some entry => exact (item_foreign (before entry held)).symm
  · rfl

theorem submap_clear_other (different : key.name ≠ other.name) :
    key.submap (other.clear vals) = key.submap vals := by
  have foreign (name : String) (member : name ∈ other.keysToRemove vals)
      (held : KeyKind × ConfigValue Object) (present : vals.get name = some held) :
      key.isSubKey held.1 = false := by
    obtain ⟨_, _, found, sub⟩ := (other.mem_keysToRemove _ _).mp member
    rw [present] at found
    cases found
    exact not_isSubKey_other different sub
  refine submap_congr (fun name => ?_) (LinkedMap.listing_removeAll_passed
    fun name member held present => entryName_foreign (foreign name member held present))
  rw [clear, LinkedMap.get_removeAll]
  split
  · next member =>
    cases held : vals.get (key.subKey name).name with
    | none => rfl
    | some entry => exact (item_foreign (foreign _ member entry held)).symm
  · rfl

end Others

end Puts

def putSubs (key : ConfigKey) (vals : ConfigMap Object)
    (written : List (String × ConfigValue Object)) : ConfigMap Object :=
  written.foldl (fun vals item => vals.put (key.subKey item.1) item.2) vals

section PutSubs
variable {vals : ConfigMap Object} {written : List (String × ConfigValue Object)}

theorem untaken_later {item : String × ConfigValue Object}
    (untaken : ∀ put ∈ item :: written, ¬ key.Taken vals put.1) :
    ∀ put ∈ written, ¬ key.Taken (vals.put (key.subKey item.1) item.2) put.1 :=
  fun put member taken => untaken put (List.mem_cons_of_mem _ member) (taken_of_put_subKey taken)

theorem submap_putSubs (untaken : ∀ item ∈ written, ¬ key.Taken vals item.1) :
    key.submap (key.putSubs vals written) = (key.submap vals).putAll written := by
  induction written generalizing vals with
  | nil => rfl
  | cons item rest ih =>
    refine (ih (untaken_later untaken)).trans ?_
    rw [submap_put (untaken item List.mem_cons_self)]
    rfl

theorem submap_putSubs_other {other : ConfigKey} (different : key.name ≠ other.name)
    (untaken : ∀ item ∈ written, ¬ other.Taken vals item.1) :
    key.submap (other.putSubs vals written) = key.submap vals := by
  induction written generalizing vals with
  | nil => rfl
  | cons item rest ih =>
    exact (ih (untaken_later untaken)).trans
      (submap_put_other different (untaken item List.mem_cons_self))

theorem taken_putSubs {subName : String} (taken : key.Taken vals subName) :
    key.Taken (key.putSubs vals written) subName := by
  induction written generalizing vals with
  | nil => exact taken
  | cons item rest ih => exact ih (taken_put taken _)

theorem proper_putSubs (proper : vals.Proper) : (key.putSubs vals written).Proper := by
  induction written generalizing vals with
  | nil => exact proper
  | cons item rest ih => exact ih (proper_put proper (proper_subKey item.1) item.2)

end PutSubs

/-- A put of a sub-key, or a value that is applied to the key. -/
inductive MapChange (Object : Type) where
  | put (subName : String) (value : ConfigValue Object)
  | apply (value : ConfigValue Object)

/-- A change whose value is refused leaves the map. -/
def takeChange (key : ConfigKey) : MapChange Object → ConfigMap Object → ConfigMap Object
  | .put subName value, vals => vals.put (key.subKey subName) value
  | .apply value, vals =>
      match key.applyMapValue value vals with
      | .ok after => after
      | .error _ => vals

/-- The sub-name that an entry is for. -/
def entrySubName (key : ConfigKey) : EntryKey → Option String
  | .key contender => if key.isSubKey contender.kind then key.subName contender.name else none
  | .string subName => some subName
  | .other => none

def namedEntries (key : ConfigKey) (entries : List (EntryKey × ConfigValue Object)) :
    List (String × ConfigValue Object) :=
  entries.filterMap fun entry => (key.entrySubName entry.1).map (·, entry.2)

def clearsFirst : MapChange Object → Bool
  | .apply .clearing => true
  | .apply (.mapModification clearFirst _) => clearFirst
  | _ => false

/-- What is put, under which sub-names. -/
def written (key : ConfigKey) : MapChange Object → List (String × ConfigValue Object)
  | .put subName value => [(subName, value)]
  | .apply (.mapModification _ items) => items
  | .apply (.entry entryKey value) => key.namedEntries [(entryKey, value)]
  | .apply (.map entries) => key.namedEntries entries
  | _ => []

/-- Each sub-name has the last value that was put since the last clear. -/
def documented (key : ConfigKey) (change : MapChange Object)
    (held : LinkedMap String (ConfigValue Object)) : LinkedMap String (ConfigValue Object) :=
  (if clearsFirst change then .empty else held).putAll (key.written change)

/-- The sub-keys that are given as keys of entries are proper. -/
def ProperEntry : EntryKey → Prop
  | .key contender => contender.Proper
  | _ => True

def ProperChange : MapChange Object → Prop
  | .apply (.entry entryKey _) => ProperEntry entryKey
  | .apply (.map entries) => ∀ entry ∈ entries, ProperEntry entry.1
  | _ => True

section Change
variable {vals : ConfigMap Object}

theorem entryKey_eq {entryKey : EntryKey} (proper : ProperEntry entryKey) :
    key.entryKey entryKey = (key.entrySubName entryKey).map key.subKey := by
  cases entryKey with
  | string subName => rfl
  | other => rfl
  | key contender =>
    unfold ConfigKey.entryKey entrySubName
    dsimp only
    by_cases sub : key.isSubKey contender.kind = true
    · obtain ⟨subName, rfl⟩ := eq_subKey proper sub
      rw [if_pos sub, if_pos sub, (key.subName_eq_some _ _).mpr rfl]
      rfl
    · rw [if_neg sub, if_neg sub]
      rfl

theorem applyEntries_eq {entries : List (EntryKey × ConfigValue Object)}
    (proper : ∀ entry ∈ entries, ProperEntry entry.1) :
    entries.foldl key.applyEntryValueToMap vals = key.putSubs vals (key.namedEntries entries) := by
  induction entries generalizing vals with
  | nil => rfl
  | cons entry rest ih =>
    rw [List.foldl_cons, ih fun other member => proper other (List.mem_cons_of_mem _ member),
      applyEntryValueToMap, entryKey_eq (proper entry List.mem_cons_self)]
    cases named : key.entrySubName entry.1 with
    | none => simp [namedEntries, named]
    | some subName => simp [namedEntries, named, putSubs]

theorem takeChange_eq {change : MapChange Object} (proper : ProperChange change) :
    key.takeChange change vals =
      key.putSubs (if clearsFirst change then key.clear vals else vals) (key.written change) := by
  cases change with
  | put subName value => rfl
  | apply value =>
    cases value with
    | entry entryKey value =>
      have alone : ∀ entry ∈ [(entryKey, value)], ProperEntry entry.1 := fun entry member => by
        rw [List.mem_singleton.mp member]
        exact proper
      exact applyEntries_eq alone
    | map entries => exact applyEntries_eq proper
    | mapModification clearFirst items =>
      refine (applyEntries_eq ?_).trans ?_
      · intro entry member
        obtain ⟨item, _, rfl⟩ := List.mem_map.mp member
        trivial
      · have named : key.namedEntries (items.map fun item => (EntryKey.string item.1, item.2)) =
            items := by
          simp [namedEntries, entrySubName]
        rw [named]
        rfl
    | _ => rfl

/-- No name that the change puts is held by a key that is none of this one's. -/
def Untaken (key : ConfigKey) (vals : ConfigMap Object) (change : MapChange Object) : Prop :=
  ∀ item ∈ key.written change, ¬ key.Taken vals item.1

theorem proper_takeChange (proper : vals.Proper) {change : MapChange Object}
    (named : ProperChange change) : (key.takeChange change vals).Proper := by
  rw [takeChange_eq named]
  split
  · exact proper_putSubs (proper_clear proper)
  · exact proper_putSubs proper

theorem taken_cleared (change : MapChange Object) {subName : String} :
    key.Taken (if clearsFirst change then key.clear vals else vals) subName ↔
      key.Taken vals subName := by
  split
  · exact taken_clear
  · rfl

/-- A change does to the key what is documented if it puts no taken name, and only then. -/
theorem submap_takeChange_iff {change : MapChange Object} (named : ProperChange change) :
    key.submap (key.takeChange change vals) = key.documented change (key.submap vals) ↔
      key.Untaken vals change := by
  rw [takeChange_eq named]
  constructor
  · intro right item member taken
    -- The name stays taken, so what is put under it is not extracted.
    have lost : (key.submap (key.putSubs _ (key.written change))).get item.1 = none :=
      submap_of_taken (taken_putSubs ((taken_cleared change).mpr taken))
    rw [right] at lost
    have there : item.1 ∈ (key.documented change (key.submap vals)).keys := by
      rw [documented, LinkedMap.keys_putAll, LinkedSet.mem_addAll]
      exact Or.inr (List.mem_map_of_mem member)
    exact (LinkedMap.get_eq_none_iff _ _).mp lost there
  · intro untaken
    rw [submap_putSubs fun item member taken =>
      untaken item member ((taken_cleared change).mp taken)]
    unfold documented
    split
    · rw [submap_clear]
    · rfl

theorem submap_takeChange_other {other : ConfigKey} (different : key.name ≠ other.name)
    {change : MapChange Object} (named : ProperChange change)
    (untaken : other.Untaken vals change) :
    key.submap (other.takeChange change vals) = key.submap vals := by
  rw [takeChange_eq named, submap_putSubs_other different fun item member taken =>
    untaken item member ((taken_cleared change).mp taken)]
  split
  · exact submap_clear_other different
  · rfl

end Change

section Run
variable {Party : Type} [DecidableEq Party] (keys : Party → ConfigKey)

/-- At every moment of the run each key extracts the last value under each sub-name since its last
clear, whatever has been done to the others. -/
def AlwaysExtracts : List (Party × MapChange Object) → ConfigMap Object →
    (Party → LinkedMap String (ConfigValue Object)) → Prop
  | [], vals, expected => ∀ party, (keys party).ExtractsMap vals (expected party)
  | (party, change) :: rest, vals, expected =>
      (∀ party, (keys party).ExtractsMap vals (expected party)) ∧
        AlwaysExtracts rest ((keys party).takeChange change vals)
          (Function.update expected party ((keys party).documented change (expected party)))

/-- No change of the run puts a taken name. -/
def NeverTaken : List (Party × MapChange Object) → ConfigMap Object → Prop
  | [], _ => True
  | (party, change) :: rest, vals =>
      (keys party).Untaken vals change ∧ NeverTaken rest ((keys party).takeChange change vals)

variable {keys}

theorem submap_of_alwaysExtracts {changes : List (Party × MapChange Object)}
    {vals : ConfigMap Object} (proper : vals.Proper)
    {expected : Party → LinkedMap String (ConfigValue Object)}
    (right : AlwaysExtracts keys changes vals expected) (party : Party) :
    (keys party).submap vals = expected party := by
  refine (extractsMap_iff proper _).mp ?_
  cases changes with
  | nil => exact right party
  | cons step rest => exact right.1 party

theorem alwaysExtracts_iff (distinct : Function.Injective fun party => (keys party).name)
    {changes : List (Party × MapChange Object)}
    (named : ∀ step ∈ changes, ProperChange step.2) {vals : ConfigMap Object}
    (proper : vals.Proper) {expected : Party → LinkedMap String (ConfigValue Object)}
    (extracts : ∀ party, (keys party).submap vals = expected party) :
    AlwaysExtracts keys changes vals expected ↔ NeverTaken keys changes vals := by
  have now : ∀ party, (keys party).ExtractsMap vals (expected party) := fun party =>
    (extractsMap_iff proper _).mpr (extracts party)
  induction changes generalizing vals expected with
  | nil => exact iff_of_true now trivial
  | cons step rest ih =>
    obtain ⟨party, change⟩ := step
    have here := named _ List.mem_cons_self
    have after : ((keys party).takeChange change vals).Proper := proper_takeChange proper here
    have own := @submap_takeChange_iff _ (keys party) vals change here
    have later := @ih (fun other member => named other (List.mem_cons_of_mem _ member)) _ after
      (Function.update expected party ((keys party).documented change (expected party)))
    constructor
    · rintro ⟨-, right⟩
      -- It is the changed key itself that extracts too little when a name is taken.
      have submaps := submap_of_alwaysExtracts after right
      have untaken := own.mp (by
        rw [submaps party, Function.update_self, extracts party])
      exact ⟨untaken, (later submaps fun party =>
        (extractsMap_iff after _).mpr (submaps party)).mp right⟩
    · rintro ⟨untaken, rest⟩
      have submaps (observed : Party) :
          (keys observed).submap ((keys party).takeChange change vals) =
            Function.update expected party ((keys party).documented change (expected party))
              observed := by
        by_cases same : observed = party
        · subst same
          rw [Function.update_self, own.mpr untaken, extracts observed]
        · rw [Function.update_of_ne same, ← extracts observed]
          exact submap_takeChange_other (fun names => same (distinct names)) here untaken
      exact ⟨now, (later submaps fun party =>
        (extractsMap_iff after _).mpr (submaps party)).mpr rest⟩

/-- Keys with distinct names that share a map extract, all along a run of changes, what was last
put to each of them, if no change puts a name that is held by a key that is none of its own, and
only then. -/
theorem map_keys_apart_iff (keys : Party → ConfigKey)
    (distinct : Function.Injective fun party => (keys party).name)
    (vals : ConfigMap Object) (proper : vals.Proper) (changes : List (Party × MapChange Object))
    (named : ∀ step ∈ changes, ProperChange step.2) :
    AlwaysExtracts keys changes vals (fun party => (keys party).submap vals) ↔
      NeverTaken keys changes vals :=
  alwaysExtracts_iff distinct named proper fun _ => rfl

/-- Two keys. -/
def pair (first second : ConfigKey) : Bool → ConfigKey
  | true => first
  | false => second

theorem pair_distinct {first second : ConfigKey} (different : first.name ≠ second.name) :
    Function.Injective fun party => (pair first second party).name := by
  intro party other same
  cases party <;> cases other
  · rfl
  · exact absurd same.symm different
  · exact absurd same different
  · rfl

/-- The same sub-name under two keys, and a `set`. -/
theorem same_sub_name_apart :
    AlwaysExtracts (pair ⟨"a", .map⟩ ⟨"b", .map⟩)
      [(true, .put "x" (.other 1)), (false, .apply (.mapModification true [("x", .other 2)]))]
      .empty (fun _ => .empty) := by
  refine (map_keys_apart_iff _ (pair_distinct (by decide)) .empty (fun _ _ => nofun) _
    (by simp [ProperChange])).mpr ⟨?_, ?_, trivial⟩
  · intro item member
    cases List.mem_singleton.mp member
    rintro ⟨held, ⟨⟩, _⟩
  · intro item member
    cases List.mem_singleton.mp member
    rintro ⟨held, ⟨⟩, _⟩

/-- What is put to the key "a.b" goes to the entry "b.c" of the key "a". -/
theorem shared_name_misread :
    ¬ AlwaysExtracts (pair ⟨"a", .map⟩ ⟨"a.b", .map⟩)
      [(true, .put "b.c" (.other 1)), (false, .put "c" (.other 2))] .empty (fun _ => .empty) := by
  rintro ⟨-, -, extracts⟩
  have second := extracts false Unit (ConfigValue Nat) .ok
  rw [resolveAll_ok] at second
  have extracted : ConfigKey.extractMap ⟨"a.b", .map⟩ (Except.ok (ε := Unit))
      (takeChange ⟨"a.b", .map⟩ (.put "c" (.other 2))
        (takeChange ⟨"a", .map⟩ (.put "b.c" (.other 1)) .empty)) =
      .ok (.empty : LinkedMap String (ConfigValue Nat)) := rfl
  have lost := Except.ok.inj (extracted.symm.trans second)
  have there := congrFun (congrArg LinkedMap.get lost) "c"
  revert there
  simp [Function.update, documented, written, clearsFirst, LinkedMap.putAll]

end Run

end ConfigKey
end Brooklyn
