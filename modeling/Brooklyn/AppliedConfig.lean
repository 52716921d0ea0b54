import Brooklyn.EntityConfig

/-!
Which names a value takes away from the own configuration of an entity, and which values of a
`ListConfigKey` throw. `lostNames` reads the key, the value and the configuration before.
-/

namespace Brooklyn

variable {Object : Type}

namespace ConfigMap

/-- Whatever had a value has one. -/
def Grows (map other : ConfigMap Object) : Prop :=
  ∀ name, (map.valueOf name).isSome → (other.valueOf name).isSome

theorem Grows.refl (map : ConfigMap Object) : Grows map map := fun _ => id

theorem Grows.trans {map middle other : ConfigMap Object} (first : Grows map middle)
    (second : Grows middle other) : Grows map other :=
  fun name there => second name (first name there)

theorem grows_put (map : ConfigMap Object) (key : ConfigKey) (value : ConfigValue Object) :
    Grows map (map.put key value) := by
  intro name there
  rw [valueOf_put]
  split
  · rfl
  · exact there

end ConfigMap

namespace ConfigKey
variable (key : ConfigKey)

theorem mem_keysToRemove (target : ConfigMap Object) (name : String) :
    name ∈ key.keysToRemove target ↔
      ∃ kind value, target.get name = some (kind, value) ∧ key.isSubKey kind = true := by
  simp only [keysToRemove, List.mem_map, List.mem_filter, Prod.exists]
  constructor
  · rintro ⟨_, kind, value, ⟨member, sub⟩, rfl⟩
    exact ⟨kind, value, (target.mem_entries _ _).mp member, sub⟩
  · rintro ⟨kind, value, held, sub⟩
    exact ⟨name, kind, value, ⟨(target.mem_entries _ _).mpr held, sub⟩, rfl⟩

theorem get_clear {target : ConfigMap Object} {name : String}
    (stays : name ∉ key.keysToRemove target) : (key.clear target).get name = target.get name := by
  rw [clear, LinkedMap.get_removeAll, if_neg stays]

theorem grows_applyEntries (entries : List (EntryKey × ConfigValue Object))
    (target : ConfigMap Object) :
    ConfigMap.Grows target (entries.foldl key.applyEntryValueToMap target) := by
  induction entries generalizing target with
  | nil => exact .refl _
  | cons entry rest ih =>
    refine ConfigMap.Grows.trans ?_ (ih _)
    unfold applyEntryValueToMap
    split
    · exact ConfigMap.grows_put _ _ _
    · exact .refl _

/-- Each entry that is not ignored gets a value. -/
theorem applyEntries_sets {entries : List (EntryKey × ConfigValue Object)}
    {entry : EntryKey × ConfigValue Object} (member : entry ∈ entries) {subKey : ConfigKey}
    (named : key.entryKey entry.1 = some subKey) (target : ConfigMap Object) :
    ((entries.foldl key.applyEntryValueToMap target).valueOf subKey.name).isSome := by
  induction entries generalizing target with
  | nil => cases member
  | cons first rest ih =>
    rcases List.mem_cons.mp member with rfl | later
    · refine key.grows_applyEntries rest _ subKey.name ?_
      unfold applyEntryValueToMap
      rw [named]
      dsimp only
      rw [ConfigMap.valueOf_put, if_pos rfl]
      rfl
    · exact ih later _

end ConfigKey

namespace ConfigValue

mutual

/-- Whether a `ListConfigKey` clears the list on the way. -/
def clearsList : ConfigValue Object → Bool
  | .clearing => true
  | .listModification clearFirst _ => clearFirst
  | .collection elements => anyClearsList elements
  | _ => false

def anyClearsList : List (ConfigValue Object) → Bool
  | [] => false
  | value :: rest => clearsList value || anyClearsList rest

end

mutual

/-- Whether a `ListConfigKey` throws at the value. -/
def throwsList : ConfigValue Object → Bool
  | .mapModification _ _ => true
  | .collection elements => anyThrowsList elements
  | _ => false

def anyThrowsList : List (ConfigValue Object) → Bool
  | [] => false
  | value :: rest => throwsList value || anyThrowsList rest

end

mutual

/-- Whether something is put, or cleared from a list that has items, before it throws. -/
def touchesList (items : Bool) : ConfigValue Object → Bool
  | .mapModification _ _ => false
  | .clearing => items
  | .listModification clearFirst values => clearFirst && items || !values.isEmpty
  | .collection elements => anyTouchesList items elements
  | _ => true

def anyTouchesList (items : Bool) : List (ConfigValue Object) → Bool
  | [] => false
  | value :: rest => touchesList items value || !throwsList value && anyTouchesList items rest

end

end ConfigValue

namespace ConfigKey
variable (newUid : Nat → String) (key : ConfigKey)

section Rule
variable {relation : ListTarget Object → ListTarget Object → Prop}

theorem putItems_moves (refl : ∀ target, relation target target)
    (trans : ∀ target middle after, relation target middle → relation middle after →
      relation target after)
    (puts : ∀ target value, relation target (key.putItem newUid target value))
    (items : List (ConfigValue Object)) (target : ListTarget Object) :
    relation target (items.foldl (key.putItem newUid) target) := by
  induction items generalizing target with
  | nil => exact refl target
  | cons item rest ih => exact trans _ _ _ (puts target item) (ih _)

mutual

/-- What every put does, and every clear if there is one, is what a value does. -/
theorem applyListValue_moves (refl : ∀ target, relation target target)
    (trans : ∀ target middle after, relation target middle → relation middle after →
      relation target after)
    (puts : ∀ target value, relation target (key.putItem newUid target value)) :
    ∀ (value : ConfigValue Object)
      (_ : value.clearsList = true → ∀ target, relation target (key.clearList target))
      (target : ListTarget Object), relation target (key.applyListValue newUid value target).2
  | .clearing, clears, target => clears rfl target
  | .listModification clearFirst items, clears, target => by
      unfold applyListValue
      cases clearFirst with
      | false => exact key.putItems_moves newUid refl trans puts items target
      | true =>
        exact trans _ _ _ (clears rfl target)
          (key.putItems_moves newUid refl trans puts items _)
  | .mapModification _ _, _, target => refl target
  | .collection elements, clears, target =>
      applyListValues_moves refl trans puts elements clears target
  | .null, _, target => puts target _
  | .other _, _, target => puts target _
  | .entry _ _, _, target => puts target _
  | .map _, _, target => puts target _

theorem applyListValues_moves (refl : ∀ target, relation target target)
    (trans : ∀ target middle after, relation target middle → relation middle after →
      relation target after)
    (puts : ∀ target value, relation target (key.putItem newUid target value)) :
    ∀ (values : List (ConfigValue Object))
      (_ : ConfigValue.anyClearsList values = true →
        ∀ target, relation target (key.clearList target))
      (target : ListTarget Object), relation target (key.applyListValues newUid values target).2
  | [], _, target => refl target
  | value :: rest, clears, target => by
      have first := applyListValue_moves refl trans puts value
        (fun here => clears (by simp [ConfigValue.anyClearsList, here])) target
      unfold applyListValues
      split
      next fault after ended =>
        rw [ended] at first
        exact first
      next done after ended =>
        rw [ended] at first
        exact trans _ _ _ first (applyListValues_moves refl trans puts rest
          (fun later => clears (by simp [ConfigValue.anyClearsList, later])) after)

end

end Rule

mutual

theorem applyListValue_throws : ∀ (value : ConfigValue Object) (target : ListTarget Object),
    (∃ fault, (key.applyListValue newUid value target).1 = .error fault) ↔
      value.throwsList = true
  | .mapModification _ _, _ => iff_of_true ⟨_, rfl⟩ rfl
  | .collection elements, target => applyListValues_throws elements target
  | .clearing, _ | .listModification _ _, _ | .null, _ | .other _, _ | .entry _ _, _
  | .map _, _ => by
      refine iff_of_false ?_ Bool.false_ne_true
      rintro ⟨fault, ⟨⟩⟩

theorem applyListValues_throws : ∀ (values : List (ConfigValue Object))
    (target : ListTarget Object),
    (∃ fault, (key.applyListValues newUid values target).1 = .error fault) ↔
      ConfigValue.anyThrowsList values = true
  | [], _ => by
      refine iff_of_false ?_ Bool.false_ne_true
      rintro ⟨fault, ⟨⟩⟩
  | value :: rest, target => by
      have first := applyListValue_throws value target
      unfold applyListValues ConfigValue.anyThrowsList
      rw [Bool.or_eq_true]
      split
      next fault after ended =>
        rw [ended] at first
        exact iff_of_true ⟨fault, rfl⟩ (Or.inl (first.mp ⟨fault, rfl⟩))
      next done after ended =>
        rw [ended] at first
        rw [or_iff_right fun throws => by cases (first.mpr throws).choose_spec]
        exact applyListValues_throws rest after

end

mutual

/-- A value that touches nothing leaves the map. -/
theorem applyListValue_untouched {items : Bool} : ∀ (value : ConfigValue Object)
    (_ : value.touchesList items = false) (target : ListTarget Object)
    (_ : items = false → key.clear target.map = target.map),
    (key.applyListValue newUid value target).2.map = target.map
  | .mapModification _ _, _, _, _ => rfl
  | .clearing, untouched, _, cleared => cleared untouched
  | .listModification clearFirst [], untouched, target, cleared => by
      cases clearFirst with
      | false => rfl
      | true => exact cleared (by simpa [ConfigValue.touchesList] using untouched)
  | .listModification clearFirst (_ :: _), untouched, _, _ => by
      simp [ConfigValue.touchesList] at untouched
  | .collection elements, untouched, target, cleared =>
      applyListValues_untouched elements untouched target cleared

theorem applyListValues_untouched {items : Bool} : ∀ (values : List (ConfigValue Object))
    (_ : ConfigValue.anyTouchesList items values = false) (target : ListTarget Object)
    (_ : items = false → key.clear target.map = target.map),
    (key.applyListValues newUid values target).2.map = target.map
  | [], _, _, _ => rfl
  | value :: rest, untouched, target, cleared => by
      rw [ConfigValue.anyTouchesList, Bool.or_eq_false_iff] at untouched
      have first := applyListValue_untouched value untouched.1 target cleared
      have throws := key.applyListValue_throws newUid value target
      unfold applyListValues
      split
      next fault after ended =>
        rw [ended] at first
        exact first
      next done after ended =>
        rw [ended] at first throws
        have returned : value.throwsList = false :=
          Bool.eq_false_iff.mpr fun thrown => by cases (throws.mpr thrown).choose_spec
        have later : ConfigValue.anyTouchesList items rest = false := by
          simpa [returned] using untouched.2
        refine (applyListValues_untouched rest later after ?_).trans first
        rw [show after.map = target.map from first]
        exact cleared

end

theorem clear_of_none {target : ConfigMap Object} (none_there : key.keysToRemove target = []) :
    key.clear target = target := by
  rw [clear, none_there]
  rfl

/-- Without a clear no name loses its value. -/
theorem applyListValue_grows {value : ConfigValue Object} (uncleared : value.clearsList = false)
    (target : ListTarget Object) :
    ConfigMap.Grows target.map (key.applyListValue newUid value target).2.map := by
  refine @applyListValue_moves _ newUid key (fun before after => before.map.Grows after.map)
    (fun _ => .refl _) (fun _ _ _ => .trans) (fun _ _ => ConfigMap.grows_put _ _ _) value ?_ target
  intro clears
  rw [uncleared] at clears
  cases clears

/-- What is held under another kind of key stays. -/
theorem applyListValue_keeps (value : ConfigValue Object) (target : ListTarget Object)
    {name : String} {kind : KeyKind} (otherKind : key.isSubKey kind = false)
    (held : ∃ object, target.map.get name = some (kind, object)) :
    ∃ object, (key.applyListValue newUid value target).2.map.get name = some (kind, object) := by
  refine @applyListValue_moves _ newUid key (fun before after =>
    (∃ object, before.map.get name = some (kind, object)) →
      ∃ object, after.map.get name = some (kind, object))
    (fun _ => id) (fun _ _ _ first second there => second (first there)) ?_ value ?_ target held
  · rintro before put ⟨object, there⟩
    change ∃ object, LinkedMap.get (ConfigMap.put before.map _ put) name = some (kind, object)
    unfold ConfigMap.put
    rw [LinkedMap.get_put]
    split
    next same =>
      rw [← same, there]
      exact ⟨put, rfl⟩
    next => exact ⟨object, there⟩
  · rintro - before ⟨object, there⟩
    refine ⟨object, (key.get_clear fun removed => ?_).trans there⟩
    obtain ⟨other, _, found, sub⟩ := (key.mem_keysToRemove before.map name).mp removed
    rw [there] at found
    cases found
    rw [otherKind] at sub
    cases sub

/-- The names of the own configuration that lose their value. -/
def lostNames (value : ConfigValue Object) (own : ConfigMap Object) : List String :=
  match key.kind, value with
  | .map, .clearing => key.keysToRemove own
  | .map, .mapModification true items =>
      (key.keysToRemove own).filter (· ∉ items.map fun item => (key.subKey item.1).name)
  | .list, value => if value.clearsList then key.keysToRemove own else []
  | _, _ => []

end ConfigKey

namespace Configured
variable (surroundings : ConfigSurroundings Object) (key : ConfigKey)

/-- All names but the lost ones keep a value. -/
theorem applyValue_keeps (value : ConfigValue Object) (target : ListTarget Object) {name : String}
    (there : (target.map.valueOf name).isSome) (kept : name ∉ key.lostNames value target.map) :
    ((applyValue surroundings key value target).2.map.valueOf name).isSome := by
  have cleared (stays : name ∉ key.keysToRemove target.map) :
      ((key.clear target.map).valueOf name).isSome := by
    rw [ConfigMap.valueOf, key.get_clear stays]
    exact there
  have put (value : ConfigValue Object) : ((target.map.put key value).valueOf name).isSome :=
    ConfigMap.grows_put _ _ _ name there
  unfold ConfigKey.lostNames at kept
  unfold applyValue
  cases kind : key.kind with
  | plain =>
    dsimp only
    split
    · exact put value
    · split
      · exact there
      · exact put _
  | subElement parent =>
    dsimp only
    split
    · exact put value
    · split
      · exact there
      · exact put _
  | list =>
    rw [kind] at kept
    dsimp only at kept ⊢
    by_cases clears : value.clearsList = true
    · rw [if_pos clears] at kept
      obtain ⟨⟨kind, object⟩, held⟩ := Option.isSome_iff_exists.mp
        (Option.isSome_map.symm.trans there)
      have otherKind : key.isSubKey kind = false := Bool.eq_false_iff.mpr fun sub =>
        kept ((key.mem_keysToRemove target.map name).mpr ⟨kind, object, held, sub⟩)
      obtain ⟨_, stays⟩ := key.applyListValue_keeps surroundings.newUid value target otherKind
        ⟨object, held⟩
      rw [ConfigMap.valueOf, stays]
      rfl
    · exact key.applyListValue_grows surroundings.newUid (Bool.eq_false_iff.mpr clears) target
        name there
  | map =>
    rw [kind] at kept
    cases value with
    | null => exact there
    | other object => exact there
    | collection elements => exact there
    | listModification clearFirst items => exact there
    | clearing => exact cleared kept
    | entry entryKey value => exact key.grows_applyEntries [(entryKey, value)] _ name there
    | map entries => exact key.grows_applyEntries entries _ name there
    | mapModification clearFirst items =>
      cases clearFirst with
      | false => exact key.grows_applyEntries _ _ name there
      | true =>
        by_cases again : name ∈ items.map fun item => (key.subKey item.1).name
        · obtain ⟨item, member, rfl⟩ := List.mem_map.mp again
          exact key.applyEntries_sets (List.mem_map_of_mem member) rfl _
        · refine key.grows_applyEntries _ _ name (cleared fun removed => kept ?_)
          exact List.mem_filter.mpr ⟨removed, decide_eq_true again⟩

/-- The own configuration stays when the value is refused, except that a list may have been
touched. -/
theorem applyValue_refused (value : ConfigValue Object) (target : ListTarget Object)
    (untouched : key.kind = .list →
      value.touchesList (key.keysToRemove target.map ≠ []) = false)
    {fault : ValueFault} (thrown : (applyValue surroundings key value target).1 = .error fault) :
    (applyValue surroundings key value target).2.map = target.map := by
  unfold applyValue at thrown ⊢
  cases kind : key.kind with
  | list =>
    refine key.applyListValue_untouched surroundings.newUid value (untouched kind) target ?_
    intro items
    exact key.clear_of_none (by simpa using items)
  | map =>
    rw [kind] at thrown
    dsimp only at thrown ⊢
    split at thrown
    next => rfl
    next => cases thrown
  | plain =>
    rw [kind] at thrown
    dsimp only at thrown ⊢
    split_ifs at thrown ⊢
    split at thrown
    next => rfl
    next => cases thrown
  | subElement parent =>
    rw [kind] at thrown
    dsimp only at thrown ⊢
    split_ifs at thrown ⊢
    split at thrown
    next => rfl
    next => cases thrown

theorem applyValue_list_throws (isList : key.kind = .list) (value : ConfigValue Object)
    (target : ListTarget Object) :
    (∃ fault, (applyValue surroundings key value target).1 = .error fault) ↔
      value.throwsList = true := by
  unfold applyValue
  rw [isList]
  exact key.applyListValue_throws surroundings.newUid value target

end Configured
end Brooklyn
