import Brooklyn.AppliedConfig

/-!
What a `ListConfigKey` holds in a map: the values under its sub-keys, in the order of the map.
`extractValue` resolves them one by one. A value that is applied changes them as `listEffect`
says, as long as the names that are drawn are new. An undecorated collection is applied value by
value, so what is a collection or a modification in it is not added as one item.
-/

namespace Brooklyn

variable {Object : Type}

namespace ConfigKey
variable (key : ConfigKey)

section Extraction

/-- The value of an entry, if it is one of a sub-key. -/
def item (held : KeyKind × ConfigValue Object) : Option (ConfigValue Object) :=
  if key.isSubKey held.1 then some held.2 else none

/-- An entry under another key. -/
def foreign (name : String) (held : KeyKind × ConfigValue Object) :
    Option (String × KeyKind × ConfigValue Object) :=
  if key.isSubKey held.1 then none else some (name, held)

def items (vals : ConfigMap Object) : List (ConfigValue Object) := vals.listing fun _ => key.item

def foreigns (vals : ConfigMap Object) : List (String × KeyKind × ConfigValue Object) :=
  vals.listing key.foreign

section Resolving
variable {Fault Result : Type} (resolve : ConfigValue Object → Except Fault Result)

/-- One round of `extractValue` of a `ListConfigKey`. Resolving a value may fail. -/
def extractItem (vals : ConfigMap Object) (result : List Result) (name : String) :
    Except Fault (List Result) :=
  match (vals.get name).bind key.item with
  | some value => (resolve value).map (result ++ [·])
  | none => .ok result

def extractList (vals : ConfigMap Object) : Except Fault (List Result) :=
  vals.keys.elements.foldlM (key.extractItem resolve vals) []

theorem foldlM_extractItem (vals : ConfigMap Object) (names : List String) (result : List Result) :
    names.foldlM (key.extractItem resolve vals) result =
      ((names.filterMap fun name => (vals.get name).bind key.item).mapM resolve).map
        (result ++ ·) := by
  induction names generalizing result with
  | nil => simp [Except.map, pure, Except.pure]
  | cons name rest ih =>
    rw [List.foldlM_cons, extractItem, List.filterMap_cons]
    cases (vals.get name).bind key.item with
    | none => exact ih result
    | some value =>
      dsimp only
      rw [List.mapM_cons]
      cases resolve value with
      | error fault => rfl
      | ok resolved =>
        refine (ih (result ++ [resolved])).trans ?_
        cases (rest.filterMap fun name => (vals.get name).bind key.item).mapM resolve with
        | error fault => rfl
        | ok others => simp [Except.map, bind, Except.bind, pure, Except.pure]

theorem extractList_eq (vals : ConfigMap Object) :
    key.extractList resolve vals = (key.items vals).mapM resolve := by
  refine (key.foldlM_extractItem resolve vals _ []).trans ?_
  change ((key.items vals).mapM resolve).map ([] ++ ·) = _
  cases (key.items vals).mapM resolve <;> rfl

end Resolving

end Extraction

section Puts
variable {key} {vals : ConfigMap Object}

theorem item_eq_none {name : String} (other : name ∉ key.keysToRemove vals)
    {held : KeyKind × ConfigValue Object} (present : vals.get name = some held) :
    key.item held = none :=
  if_neg fun sub => other ((key.mem_keysToRemove vals name).mpr ⟨held.1, held.2, present, sub⟩)

theorem foreign_eq_none {name : String} (own : name ∈ key.keysToRemove vals)
    {held : KeyKind × ConfigValue Object} (present : vals.get name = some held) :
    key.foreign name held = none := by
  obtain ⟨kind, value, found, sub⟩ := (key.mem_keysToRemove vals name).mp own
  rw [present] at found
  cases found
  exact if_pos sub

theorem mem_keysToRemove_put {other : ConfigKey} {value : ConfigValue Object} {name : String}
    (different : name ≠ other.name) :
    name ∈ key.keysToRemove (vals.put other value) ↔ name ∈ key.keysToRemove vals := by
  rw [mem_keysToRemove, mem_keysToRemove, ConfigMap.put, LinkedMap.get_put, if_neg different]

/-- A put of another key makes no sub-key. -/
theorem keysToRemove_put_foreign {vals : ConfigMap Object} {other : ConfigKey}
    (kind : key.isSubKey other.kind = false) {value : ConfigValue Object} {name : String}
    (member : name ∈ key.keysToRemove (vals.put other value)) : name ∈ key.keysToRemove vals := by
  by_cases same : name = other.name
  · subst same
    obtain ⟨kept, _, found, sub⟩ := (key.mem_keysToRemove _ _).mp member
    rw [ConfigMap.put, LinkedMap.get_put, if_pos rfl] at found
    cases held : vals.get other.name with
    | none =>
      rw [held] at found
      cases found
      rw [Option.map_none, Option.getD_none, kind] at sub
      cases sub
    | some entry =>
      rw [held] at found
      cases found
      exact (key.mem_keysToRemove _ _).mpr ⟨_, _, held, sub⟩
  · exact (mem_keysToRemove_put same).mp member

section New
variable {other : ConfigKey} {value : ConfigValue Object}

theorem put_new (absent : other.name ∉ vals.keys) :
    vals.put other value = LinkedMap.put vals other.name (other.kind, value) := by
  rw [ConfigMap.put, (LinkedMap.get_eq_none_iff vals _).mpr absent]
  rfl

theorem items_put_sub (absent : other.name ∉ vals.keys) (sub : key.isSubKey other.kind = true) :
    key.items (vals.put other value) = key.items vals ++ [value] := by
  rw [items, put_new absent, LinkedMap.listing_put_new absent, item, if_pos sub]
  rfl

theorem foreigns_put_sub (absent : other.name ∉ vals.keys) (sub : key.isSubKey other.kind = true) :
    key.foreigns (vals.put other value) = key.foreigns vals := by
  rw [foreigns, put_new absent, LinkedMap.listing_put_new absent, foreign, if_pos sub]
  exact List.append_nil _

/-- What is put under another key is no item, whether the name is new or not. -/
theorem items_put_foreign (kind : key.isSubKey other.kind = false)
    (own : other.name ∉ key.keysToRemove vals) :
    key.items (vals.put other value) = key.items vals := by
  refine LinkedMap.listing_put_passed ?_ fun held => item_eq_none own
  have still : other.name ∉ key.keysToRemove (vals.put other value) := fun again =>
    own (keysToRemove_put_foreign kind again)
  refine item_eq_none still ?_
  rw [ConfigMap.put, LinkedMap.get_put, if_pos rfl]

end New

theorem items_eq_nil (unset : key.keysToRemove vals = []) : key.items vals = [] :=
  LinkedMap.listing_eq_nil fun _ _ => item_eq_none (by simp [unset])

theorem keysToRemove_clear (vals : ConfigMap Object) : key.keysToRemove (key.clear vals) = [] := by
  refine List.eq_nil_iff_forall_not_mem.mpr fun name member => ?_
  obtain ⟨kind, value, held, sub⟩ := (key.mem_keysToRemove _ _).mp member
  by_cases own : name ∈ key.keysToRemove vals
  · rw [clear, LinkedMap.get_removeAll, if_pos own] at held
    cases held
  · rw [key.get_clear own] at held
    exact own ((key.mem_keysToRemove _ _).mpr ⟨kind, value, held, sub⟩)

theorem items_clear : key.items (key.clear vals) = [] := items_eq_nil (keysToRemove_clear vals)

theorem foreigns_clear : key.foreigns (key.clear vals) = key.foreigns vals :=
  LinkedMap.listing_removeAll_passed fun _ own _ => foreign_eq_none own

end Puts
end ConfigKey

namespace ConfigValue

/-- Whether a `ListConfigKey` adds the value as one item. -/
def isItem : ConfigValue Object → Bool
  | .clearing => false
  | .listModification _ _ => false
  | .mapModification _ _ => false
  | .collection _ => false
  | _ => true

mutual

/-- What applying a value does to the items. -/
def listEffect : ConfigValue Object → List (ConfigValue Object) →
    Except ValueFault Unit × List (ConfigValue Object)
  | .clearing, _ => (.ok ⟨⟩, [])
  | .listModification clearFirst items, held =>
      (.ok ⟨⟩, (if clearFirst then [] else held) ++ items)
  | .mapModification _ _, held => (.error .modificationOfOtherKey, held)
  -- An undecorated collection is applied value by value, whatever the values are.
  | .collection elements, held => listEffects elements held
  | value, held => (.ok ⟨⟩, held ++ [value])

def listEffects : List (ConfigValue Object) → List (ConfigValue Object) →
    Except ValueFault Unit × List (ConfigValue Object)
  | [], held => (.ok ⟨⟩, held)
  | value :: rest, held =>
      match listEffect value held with
      | (.error fault, held) => (.error fault, held)
      | (.ok _, held) => listEffects rest held

end

/-- The documented effect: the elements of a collection are items, whatever they are. -/
def documentedEffect : ConfigValue Object → List (ConfigValue Object) →
    Except ValueFault Unit × List (ConfigValue Object)
  | .collection elements, held => (.ok ⟨⟩, held ++ elements)
  | value, held => listEffect value held

/-- In an undecorated collection there are items only. -/
def Flat : ConfigValue Object → Prop
  | .collection elements => ∀ element ∈ elements, element.isItem = true
  | _ => True

theorem listEffect_item {value : ConfigValue Object} (one : value.isItem = true)
    (held : List (ConfigValue Object)) : listEffect value held = (.ok ⟨⟩, held ++ [value]) := by
  cases value <;> first | rfl | cases one

theorem listEffects_items {values : List (ConfigValue Object)}
    (items : ∀ value ∈ values, value.isItem = true) (held : List (ConfigValue Object)) :
    listEffects values held = (.ok ⟨⟩, held ++ values) := by
  induction values generalizing held with
  | nil => simp [listEffects]
  | cons value rest ih =>
    rw [listEffects, listEffect_item (items value List.mem_cons_self)]
    dsimp only
    rw [ih (fun other member => items other (List.mem_cons_of_mem _ member)), List.append_assoc]
    rfl

/-- The size of the items of a list. -/
noncomputable def weight : List (ConfigValue Object) → Nat
  | [] => 0
  | value :: rest => sizeOf value + weight rest

@[simp] theorem weight_nil : weight ([] : List (ConfigValue Object)) = 0 := rfl

@[simp] theorem weight_cons (value : ConfigValue Object) (rest : List (ConfigValue Object)) :
    weight (value :: rest) = sizeOf value + weight rest := rfl

@[simp] theorem weight_append (first second : List (ConfigValue Object)) :
    weight (first ++ second) = weight first + weight second := by
  induction first with
  | nil => simp
  | cons value rest ih => rw [List.cons_append, weight_cons, weight_cons, ih, Nat.add_assoc]

theorem weight_lt_sizeOf (values : List (ConfigValue Object)) : weight values < sizeOf values := by
  induction values with
  | nil => simp
  | cons value rest ih =>
    rw [weight_cons, List.cons.sizeOf_spec]
    omega

mutual

/-- Taking a value apart makes it smaller. -/
theorem weight_listEffect : ∀ (value : ConfigValue Object) (held : List (ConfigValue Object)),
    weight (listEffect value held).2 ≤ weight held + sizeOf value ∧
      (value.isItem = false → weight (listEffect value held).2 < weight held + sizeOf value)
  | .clearing, held => by simp [listEffect]
  | .listModification clearFirst items, held => by
      have smaller := weight_lt_sizeOf items
      cases clearFirst <;> simp [listEffect] <;> omega
  | .mapModification _ _, held => by
      rw [listEffect, mapModification.sizeOf_spec]
      dsimp only
      omega
  | .collection elements, held => by
      have bound := (weight_listEffects elements held).1
      have smaller := weight_lt_sizeOf elements
      rw [listEffect, collection.sizeOf_spec]
      omega
  | .null, held | .other _, held | .entry _ _, held | .map _, held => by
      simp [listEffect, isItem]

theorem weight_listEffects : ∀ (values held : List (ConfigValue Object)),
    weight (listEffects values held).2 ≤ weight held + weight values ∧
      ((∃ value ∈ values, value.isItem = false) →
        weight (listEffects values held).2 < weight held + weight values)
  | [], held => by simp [listEffects]
  | value :: rest, held => by
      obtain ⟨bound, smaller⟩ := weight_listEffect value held
      rw [listEffects, weight_cons]
      split
      next fault after ended =>
        -- What throws is no item, so the list stays below the bound.
        have kind : value.isItem = false := Bool.eq_false_iff.mpr fun one => by
          rw [listEffect_item one] at ended
          cases ended
        have less := smaller kind
        rw [ended] at less
        dsimp only at less ⊢
        exact ⟨by omega, fun _ => by omega⟩
      next done after ended =>
        rw [ended] at bound smaller
        dsimp only at bound smaller
        obtain ⟨later, laterSmaller⟩ := weight_listEffects rest after
        refine ⟨by omega, ?_⟩
        rintro ⟨nested, member, kind⟩
        rcases List.mem_cons.mp member with rfl | member
        · have := smaller kind
          omega
        · have := laterSmaller ⟨nested, member, kind⟩
          omega

end

/-- The elements are added as they are if each of them is an item, and only then. -/
theorem listEffects_eq_append_iff (values held : List (ConfigValue Object)) :
    listEffects values held = (.ok ⟨⟩, held ++ values) ↔
      ∀ value ∈ values, value.isItem = true := by
  refine ⟨fun added value member => ?_, fun items => listEffects_items items held⟩
  -- A value that is taken apart leaves less than itself, so the sizes do not match.
  by_contra nested
  have less := (weight_listEffects values held).2 ⟨value, member, by simpa using nested⟩
  rw [added, weight_append] at less
  exact Nat.lt_irrefl _ less

theorem listEffect_documented_iff (value : ConfigValue Object) (held : List (ConfigValue Object)) :
    listEffect value held = documentedEffect value held ↔ value.Flat := by
  cases value with
  | collection elements => exact listEffects_eq_append_iff elements held
  | _ => exact iff_of_true rfl trivial

end ConfigValue

namespace ConfigKey
variable (newUid : Nat → String) (key : ConfigKey)

/-- The names that are still to be drawn are not in the map. -/
def Fresh (target : ListTarget Object) : Prop :=
  ∀ drawn, target.drawn ≤ drawn → (key.subKey (newUid drawn)).name ∉ target.map.keys

section Applied
variable {newUid} {key}

theorem subKey_name_injective (distinct : Function.Injective newUid) {first second : Nat}
    (same : (key.subKey (newUid first)).name = (key.subKey (newUid second)).name) :
    first = second := by
  unfold subKey at same
  exact distinct (String.append_right_inj _ |>.mp same)

theorem fresh_putItem (distinct : Function.Injective newUid) {target : ListTarget Object}
    (fresh : key.Fresh newUid target) (value : ConfigValue Object) :
    key.Fresh newUid (key.putItem newUid target value) := by
  intro drawn later member
  rcases (LinkedSet.mem_add _ _ _).mp member with old | new
  · exact fresh drawn (Nat.le_of_succ_le later) old
  · have equal := subKey_name_injective distinct new
    subst equal
    exact Nat.lt_irrefl _ later

theorem keys_clear {vals : ConfigMap Object} {name : String}
    (member : name ∈ (key.clear vals).keys) : name ∈ vals.keys := by
  refine (vals.defined name).mpr ?_
  have there := ((key.clear vals).defined name).mp member
  by_cases own : name ∈ key.keysToRemove vals
  · rw [clear, LinkedMap.get_removeAll, if_pos own] at there
    cases there
  · rw [key.get_clear own] at there
    exact there

theorem fresh_clearList {target : ListTarget Object} (fresh : key.Fresh newUid target) :
    key.Fresh newUid (key.clearList target) :=
  fun drawn later member => fresh drawn later (keys_clear member)

/-- A value leaves the other entries, and the names to come are new still. -/
theorem applyListValue_frame (distinct : Function.Injective newUid) (value : ConfigValue Object)
    {target : ListTarget Object} (fresh : key.Fresh newUid target) :
    key.Fresh newUid (key.applyListValue newUid value target).2 ∧
      key.foreigns (key.applyListValue newUid value target).2.map = key.foreigns target.map := by
  refine @applyListValue_moves _ newUid key
    (fun before after => key.Fresh newUid before →
      key.Fresh newUid after ∧ key.foreigns after.map = key.foreigns before.map)
    (fun _ fresh => ⟨fresh, rfl⟩) ?_ ?_ value ?_ target fresh
  · intro before middle after first second fresh
    obtain ⟨freshMiddle, sameMiddle⟩ := first fresh
    obtain ⟨freshAfter, sameAfter⟩ := second freshMiddle
    exact ⟨freshAfter, sameAfter.trans sameMiddle⟩
  · intro before value fresh
    exact ⟨fresh_putItem distinct fresh value,
      foreigns_put_sub (fresh before.drawn (Nat.le_refl _)) (by simp [isSubKey, subKey])⟩
  · intro _ before fresh
    exact ⟨fresh_clearList fresh, foreigns_clear⟩

theorem items_putItem {target : ListTarget Object} (fresh : key.Fresh newUid target)
    (value : ConfigValue Object) :
    key.items (key.putItem newUid target value).map = key.items target.map ++ [value] :=
  items_put_sub (fresh target.drawn (Nat.le_refl _)) (by simp [isSubKey, subKey])

theorem items_putItems (distinct : Function.Injective newUid) (values : List (ConfigValue Object))
    {target : ListTarget Object} (fresh : key.Fresh newUid target) :
    key.items (values.foldl (key.putItem newUid) target).map = key.items target.map ++ values := by
  induction values generalizing target with
  | nil => exact (List.append_nil _).symm
  | cons value rest ih =>
    refine (ih (fresh_putItem distinct fresh value)).trans ?_
    rw [items_putItem fresh, List.append_assoc]
    rfl

mutual

/-- The items and the outcome are those of `listEffect`. -/
theorem applyListValue_effect (distinct : Function.Injective newUid) :
    ∀ (value : ConfigValue Object) (target : ListTarget Object) (_ : key.Fresh newUid target),
      ((key.applyListValue newUid value target).1,
          key.items (key.applyListValue newUid value target).2.map) =
        value.listEffect (key.items target.map)
  | .clearing, _, _ => Prod.ext rfl items_clear
  | .listModification clearFirst values, target, fresh => by
      refine Prod.ext rfl ?_
      cases clearFirst with
      | false => exact items_putItems distinct values fresh
      | true =>
        refine (items_putItems distinct values (fresh_clearList fresh)).trans ?_
        exact congrArg (· ++ values) items_clear
  | .mapModification _ _, _, _ => rfl
  | .collection elements, target, fresh => applyListValues_effect distinct elements target fresh
  | .null, _, fresh | .other _, _, fresh | .entry _ _, _, fresh | .map _, _, fresh =>
      Prod.ext rfl (items_putItem fresh _)

theorem applyListValues_effect (distinct : Function.Injective newUid) :
    ∀ (values : List (ConfigValue Object)) (target : ListTarget Object)
      (_ : key.Fresh newUid target),
      ((key.applyListValues newUid values target).1,
          key.items (key.applyListValues newUid values target).2.map) =
        ConfigValue.listEffects values (key.items target.map)
  | [], _, _ => rfl
  | value :: rest, target, fresh => by
      have first := applyListValue_effect distinct value target fresh
      have frame := (applyListValue_frame distinct value fresh).1
      unfold applyListValues ConfigValue.listEffects
      rw [← first]
      split
      next fault after ended => rw [ended]
      next done after ended =>
        rw [ended] at frame ⊢
        exact applyListValues_effect distinct rest after frame

end

end Applied

/-- A step of a run: a value is applied to the key, or another key gets an entry. -/
inductive ListStep (Object : Type) where
  | apply (value : ConfigValue Object)
  | put (other : ConfigKey) (value : ConfigValue Object)

def takeListStep : ListStep Object → ListTarget Object → Except ValueFault Unit × ListTarget Object
  | .apply value, target => key.applyListValue newUid value target
  | .put other value, target => (.ok ⟨⟩, { target with map := target.map.put other value })

def documentedStep : ListStep Object → List (ConfigValue Object) →
    Except ValueFault Unit × List (ConfigValue Object)
  | .apply value, held => value.documentedEffect held
  | .put _ _, held => (.ok ⟨⟩, held)

/-- The other keys of a run are no sub-keys, and have none of their names. -/
def Elsewhere (initial : ConfigMap Object) : ListStep Object → Prop
  | .apply _ => True
  | .put other _ => key.isSubKey other.kind = false ∧ other.name ∉ key.keysToRemove initial ∧
      ∀ drawn, other.name ≠ (key.subKey (newUid drawn)).name

/-- However values are resolved, the expected ones are extracted. -/
def Extracts (vals : ConfigMap Object) (expected : List (ConfigValue Object)) : Prop :=
  ∀ (Fault Result : Type) (resolve : ConfigValue Object → Except Fault Result),
    key.extractList resolve vals = expected.mapM resolve

/-- At every moment of the run the documented list is extracted, each value ends as documented,
and what is applied to the key leaves the other entries as they are. -/
def AlwaysRight : List (ListStep Object) → ListTarget Object → List (ConfigValue Object) → Prop
  | [], target, expected => key.Extracts target.map expected
  | step :: rest, target, expected =>
      key.Extracts target.map expected ∧
        (key.takeListStep newUid step target).1 = (documentedStep step expected).1 ∧
        ((∃ value, step = .apply value) →
          key.foreigns (key.takeListStep newUid step target).2.map = key.foreigns target.map) ∧
        AlwaysRight rest (key.takeListStep newUid step target).2 (documentedStep step expected).2

section Run
variable {newUid} {key}

theorem extracts_iff (vals : ConfigMap Object) (expected : List (ConfigValue Object)) :
    key.Extracts vals expected ↔ key.items vals = expected := by
  refine ⟨fun extracts => ?_, ?_⟩
  · have same := extracts Unit (ConfigValue Object) .ok
    rw [extractList_eq] at same
    have plain (values : List (ConfigValue Object)) :
        values.mapM (Except.ok (ε := Unit)) = .ok values :=
      List.mapM_pure (m := Except Unit) (f := id) |>.trans (by simp; rfl)
    rw [plain, plain] at same
    exact Except.ok.inj same
  · rintro rfl
    exact fun _ _ resolve => key.extractList_eq resolve vals

theorem extracts_of_alwaysRight {steps : List (ListStep Object)} {target : ListTarget Object}
    {expected : List (ConfigValue Object)} (right : key.AlwaysRight newUid steps target expected) :
    key.items target.map = expected := by
  cases steps with
  | nil => exact (extracts_iff _ _).mp right
  | cons step rest => exact (extracts_iff _ _).mp right.1

/-- The sub-keys of a run: those of the map at first, and those with drawn names. -/
def OwnNames (newUid : Nat → String) (key : ConfigKey) (initial vals : ConfigMap Object) : Prop :=
  ∀ name ∈ key.keysToRemove vals,
    name ∈ key.keysToRemove initial ∨ ∃ drawn, name = (key.subKey (newUid drawn)).name

theorem ownNames_apply (value : ConfigValue Object) {initial : ConfigMap Object}
    {target : ListTarget Object} (own : OwnNames newUid key initial target.map) :
    OwnNames newUid key initial (key.applyListValue newUid value target).2.map := by
  refine @applyListValue_moves _ newUid key
    (fun before after => OwnNames newUid key initial before.map →
      OwnNames newUid key initial after.map)
    (fun _ => id) (fun _ _ _ first second own => second (first own)) ?_ value ?_ target own
  · intro before value own name member
    by_cases drawn : name = (key.subKey (newUid before.drawn)).name
    · exact Or.inr ⟨before.drawn, drawn⟩
    · exact own name ((mem_keysToRemove_put drawn).mp member)
  · intro _ before _ name member
    rw [show key.keysToRemove (key.clearList before).map = [] from keysToRemove_clear _] at member
    cases member

/-- What holds along a run. -/
structure Follows (newUid : Nat → String) (key : ConfigKey) (initial : ConfigMap Object)
    (target : ListTarget Object) (expected : List (ConfigValue Object)) : Prop where
  fresh : key.Fresh newUid target
  own : OwnNames newUid key initial target.map
  items : key.items target.map = expected

/-- One step of a run does what is documented if its value is flat, and only then. -/
theorem follows_step (distinct : Function.Injective newUid) {initial : ConfigMap Object}
    {target : ListTarget Object} {expected : List (ConfigValue Object)}
    (follows : Follows newUid key initial target expected) {step : ListStep Object}
    (elsewhere : key.Elsewhere newUid initial step) :
    ((key.takeListStep newUid step target).1,
        key.items (key.takeListStep newUid step target).2.map) = documentedStep step expected ↔
      ∀ value, step = .apply value → value.Flat := by
  cases step with
  | apply value =>
    refine Iff.trans ?_ (Iff.trans (value.listEffect_documented_iff expected) ?_)
    · rw [← follows.items, ← applyListValue_effect distinct value target follows.fresh]
      rfl
    · exact ⟨by rintro flat _ ⟨⟩; exact flat, fun flat => flat value rfl⟩
  | put other value =>
    refine iff_of_true ?_ (fun _ same => nomatch same)
    obtain ⟨kind, foreign, undrawn⟩ := elsewhere
    have stays : other.name ∉ key.keysToRemove target.map := fun member =>
      (follows.own _ member).elim foreign fun ⟨drawn, same⟩ => undrawn drawn same
    exact Prod.ext rfl ((items_put_foreign kind stays).trans follows.items)

theorem follows_after (distinct : Function.Injective newUid) {initial : ConfigMap Object}
    {target : ListTarget Object} {expected : List (ConfigValue Object)}
    (follows : Follows newUid key initial target expected) {step : ListStep Object}
    (elsewhere : key.Elsewhere newUid initial step) {after : List (ConfigValue Object)}
    (items : key.items (key.takeListStep newUid step target).2.map = after) :
    Follows newUid key initial (key.takeListStep newUid step target).2 after where
  items := items
  fresh := by
    cases step with
    | apply value => exact (applyListValue_frame distinct value follows.fresh).1
    | put other value =>
      intro drawn later member
      rcases (LinkedSet.mem_add _ _ _).mp member with old | new
      · exact follows.fresh drawn later old
      · exact elsewhere.2.2 drawn new.symm
  own := by
    cases step with
    | apply value => exact ownNames_apply value follows.own
    | put other value =>
      intro name member
      exact follows.own name (keysToRemove_put_foreign elsewhere.1 member)

theorem alwaysRight_iff (distinct : Function.Injective newUid) {initial : ConfigMap Object}
    {steps : List (ListStep Object)}
    (elsewhere : ∀ step ∈ steps, key.Elsewhere newUid initial step)
    {target : ListTarget Object} {expected : List (ConfigValue Object)}
    (follows : Follows newUid key initial target expected) :
    key.AlwaysRight newUid steps target expected ↔
      ∀ value, ListStep.apply value ∈ steps → value.Flat := by
  induction steps generalizing target expected with
  | nil => exact iff_of_true ((extracts_iff _ _).mpr follows.items) (by simp)
  | cons step rest ih =>
    have here := follows_step distinct follows (elsewhere step List.mem_cons_self)
    have later (items : key.items (key.takeListStep newUid step target).2.map =
        (documentedStep step expected).2) :=
      ih (fun other member => elsewhere other (List.mem_cons_of_mem _ member))
        (follows_after distinct follows (elsewhere step List.mem_cons_self) items)
    constructor
    · rintro ⟨-, outcome, -, right⟩ value member
      -- The next state extracts what is documented, so this step did what is documented.
      have items := extracts_of_alwaysRight right
      rcases List.mem_cons.mp member with same | member
      · exact here.mp (Prod.ext outcome items) value same.symm
      · exact (later items).mp right value member
    · intro flat
      have taken := here.mpr fun value same => flat value (same ▸ List.mem_cons_self)
      have items := congrArg Prod.snd taken
      refine ⟨(extracts_iff _ _).mpr follows.items, congrArg Prod.fst taken, ?_,
        (later items).mpr fun value member => flat value (List.mem_cons_of_mem _ member)⟩
      rintro ⟨value, rfl⟩
      exact (applyListValue_frame distinct value follows.fresh).2

end Run

/-- Along every run the list that is extracted is the documented one, and other entries stay, if
the collections that are applied have neither collections nor modifications in them, and only
then. A map without sub-keys starts with the empty list. -/
theorem extracted_list_iff {newUid : Nat → String} (distinct : Function.Injective newUid)
    (target : ListTarget Object) (fresh : key.Fresh newUid target)
    (steps : List (ListStep Object))
    (elsewhere : ∀ step ∈ steps, key.Elsewhere newUid target.map step) :
    (key.keysToRemove target.map = [] → key.items target.map = []) ∧
      (key.AlwaysRight newUid steps target (key.items target.map) ↔
        ∀ value, ListStep.apply value ∈ steps → value.Flat) :=
  ⟨items_eq_nil, alwaysRight_iff distinct elsewhere ⟨fresh, fun _ => Or.inl, rfl⟩⟩

section Example

/-- Uids for a run: each is longer than the one before. -/
def growingUid (drawn : Nat) : String := String.ofList (List.replicate drawn 'u')

theorem growingUid_injective : Function.Injective growingUid := by
  intro first second same
  have lists := String.ofList_injective same
  simpa using congrArg List.length lists

/-- Items, a collection of two, and a `set` with a collection as its item, next to another key. -/
theorem hosts_extracted :
    (ConfigKey.mk "hosts" .list).AlwaysRight growingUid
      [.apply (.other 1), .put ⟨"owner", .plain⟩ (.other 2), .apply (.collection [.other 3, .null]),
        .apply (.listModification true [.collection [.other 4]]), .apply .clearing]
      ⟨.empty, 0⟩ [] := by
  refine (extracted_list_iff ⟨"hosts", .list⟩ growingUid_injective ⟨.empty, 0⟩
    (fun _ _ => LinkedSet.not_mem_empty _) _ ?_).2.mpr ?_
  · simp only [List.mem_cons, List.not_mem_nil, or_false]
    rintro _ (rfl | rfl | rfl | rfl | rfl)
    · trivial
    · refine ⟨rfl, List.not_mem_nil, fun drawn same => ?_⟩
      have lists := congrArg String.toList same
      simp [subKey] at lists
    all_goals trivial
  · simp only [List.mem_cons, List.not_mem_nil, or_false, ListStep.apply.injEq, reduceCtorEq,
      false_or]
    rintro _ (rfl | rfl | rfl | rfl)
    · trivial
    · simp [ConfigValue.Flat, ConfigValue.isItem]
    all_goals trivial

/-- A collection in a collection is taken apart: its elements are items. -/
theorem nested_collection_flattened :
    ¬ (ConfigKey.mk "hosts" .list).AlwaysRight growingUid
      [.apply (.collection [.collection [.other 1]])] ⟨.empty, 0⟩ [] := by
  rintro ⟨-, -, -, extracts⟩
  have items := (extracts_iff _ _).mp extracts
  have flattened : ConfigKey.items ⟨"hosts", .list⟩ (takeListStep growingUid ⟨"hosts", .list⟩
      (.apply (.collection [.collection [.other 1]])) ⟨.empty, 0⟩).2.map = [.other 1] := by
    rfl
  rw [flattened] at items
  cases items

end Example

end ConfigKey
end Brooklyn
