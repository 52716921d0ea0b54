import Mathlib.Data.List.Induction
import Mathlib.Logic.Function.Basic

/-!
Files of which each gets a writer with its first write, and the writer has one life: a
deletion without a writer does nothing, and after a deletion by the writer nothing is
written to that file any more. `unopened` is a file without a writer, with what an earlier
process left in it. Writes and deletions are settled here: nothing is pending.
-/

namespace Brooklyn.SingleUseFiles

universe u v
variable {Key : Type u} {Value : Type v}

inductive Slot (Value : Type v) where
  | unopened (existing : Option Value)
  | written (value : Value)
  | deleted
deriving DecidableEq

namespace Slot

def file : Slot Value → Option Value
  | .unopened existing => existing
  | .written value => some value
  | .deleted => none

def isDeleted : Slot Value → Bool
  | .deleted => true
  | _ => false

/-- There is a writer for the file. -/
def writer : Slot Value → Bool
  | .unopened _ => false
  | _ => true

def write (slot : Slot Value) (value : Value) : Slot Value :=
  match slot with
  | .deleted => .deleted
  | _ => .written value

def delete : Slot Value → Slot Value
  | .unopened existing => .unopened existing
  | _ => .deleted

def writeAll (slot : Slot Value) (values : List Value) : Slot Value :=
  values.foldl write slot

@[simp] theorem writeAll_deleted (values : List Value) :
    (deleted : Slot Value).writeAll values = .deleted := by
  induction values with
  | nil => rfl
  | cons value rest ih => exact ih

theorem writeAll_written (value : Value) (values : List Value) :
    (written value).writeAll values = .written (values.getLast?.getD value) := by
  induction values using List.reverseRecOn with
  | nil => rfl
  | append_singleton values last ih =>
    rw [writeAll, List.foldl_append]
    change ((written value).writeAll values).write last = _
    rw [ih]
    simp [write]

theorem writeAll_unopened (existing : Option Value) (values : List Value) :
    (unopened existing).writeAll values =
      match values.getLast? with
      | some last => .written last
      | none => .unopened existing := by
  cases values with
  | nil => rfl
  | cons first rest =>
    change (written first).writeAll rest = _
    rw [writeAll_written]
    cases rest using List.reverseRecOn with
    | nil => rfl
    | append_singleton middle last => simp [List.getLast?_cons]

/-- Writes of some values, and then perhaps a deletion. -/
def replace (slot : Slot Value) (values : List Value) (removed : Bool) : Slot Value :=
  if removed then (slot.writeAll values).delete else slot.writeAll values

@[simp] theorem replace_nil (slot : Slot Value) (removed : Bool) :
    slot.replace [] removed = if removed then slot.delete else slot := rfl

/-- Nothing comes into a file that was deleted. -/
theorem file_writeAll (slot : Slot Value) (values : List Value) :
    (slot.writeAll values).file =
      if slot.isDeleted then none else values.getLast?.or slot.file := by
  cases slot with
  | unopened existing =>
    rw [writeAll_unopened]
    cases values.getLast? <;> rfl
  | written value =>
    rw [writeAll_written]
    cases values.getLast? <;> rfl
  | deleted => rw [writeAll_deleted]; rfl

/-- Where something is written the file is there, unless it is deleted, or was before. -/
theorem isSome_file_replace (slot : Slot Value) {values : List Value} (removed : Bool)
    (some_value : values ≠ []) :
    (slot.replace values removed).file.isSome = (!slot.isDeleted && !removed) := by
  cases values using List.reverseRecOn with
  | nil => exact absurd rfl some_value
  | append_singleton values last =>
    cases slot <;> cases removed <;>
      simp [replace, writeAll_unopened, writeAll_written, file, delete, isDeleted]

/-- What is then in the file was written, or was there. -/
theorem mem_of_file_replace {slot : Slot Value} {values : List Value} {removed : Bool}
    {value : Value} (found : (slot.replace values removed).file = some value) :
    value ∈ values ∨ slot.file = some value := by
  cases values using List.reverseRecOn with
  | nil => cases slot <;> cases removed <;> simp_all [replace, writeAll, delete, file]
  | append_singleton values last =>
    cases slot <;> cases removed <;>
      simp_all [replace, writeAll_unopened, writeAll_written, delete, file]

theorem file_delete {slot : Slot Value} (known : (slot.writer || slot.file.isNone) = true) :
    slot.delete.file = none := by
  cases slot with
  | unopened existing => simpa [writer, file, delete] using known
  | _ => rfl

/-- Nothing is written for a file that is deleted, before or in the same go, and no file
is to be deleted that has no writer. -/
def Effective (slot : Slot Value) (values : List Value) (removed : Bool) : Prop :=
  (values ≠ [] → slot ≠ .deleted ∧ removed = false) ∧
    (removed = true → ∀ existing, slot ≠ .unopened (some existing))

/-- Exactly then the file holds what the values and the deletion say. -/
theorem file_replace_iff (slot : Slot Value) (values : List Value) (removed : Bool) :
    (slot.replace values removed).file =
        values.getLast?.or (if removed then none else slot.file) ↔
      Effective slot values removed := by
  cases values using List.reverseRecOn with
  | nil =>
    cases removed with
    | false => simp [replace, writeAll, Effective]
    | true =>
      cases slot <;>
        simp [replace, writeAll, delete, file, Effective, Option.eq_none_iff_forall_ne_some]
  | append_singleton values last =>
    have present := isSome_file_replace slot removed (List.append_ne_nil_of_right_ne_nil values
      (List.cons_ne_nil last []))
    constructor
    · intro same
      rw [same] at present
      cases slot <;> cases removed <;> simp [isDeleted] at present <;> simp [Effective]
    · rintro ⟨written, _⟩
      obtain ⟨undeleted, rfl⟩ := written (by simp)
      cases slot with
      | unopened existing => simp [replace, writeAll_unopened, file]
      | written value => simp [replace, writeAll_written, file]
      | deleted => exact absurd rfl undeleted

end Slot

inductive FileOperation (Key : Type u) (Value : Type v) where
  | write (key : Key) (value : Value)
  | delete (key : Key)
deriving DecidableEq

variable [DecidableEq Key]

def apply (slots : Key → Slot Value) : FileOperation Key Value → Key → Slot Value
  | .write key value => Function.update slots key ((slots key).write value)
  | .delete key => Function.update slots key (slots key).delete

def run (slots : Key → Slot Value) (operations : List (FileOperation Key Value)) :
    Key → Slot Value :=
  operations.foldl apply slots

theorem run_append (slots : Key → Slot Value) (first rest : List (FileOperation Key Value)) :
    run slots (first ++ rest) = run (run slots first) rest :=
  List.foldl_append

theorem run_writes (key : Value → Key) (slots : Key → Slot Value) (values : List Value)
    (name : Key) :
    run slots (values.map fun value => .write (key value) value) name =
      (slots name).writeAll (values.filter fun value => key value = name) := by
  induction values generalizing slots with
  | nil => rfl
  | cons value rest ih =>
    refine (ih _).trans ?_
    by_cases here : key value = name
    · subst here
      simp [apply, Slot.writeAll]
    · simp [apply, here, Function.update_of_ne (Ne.symm here)]

theorem run_deletes (slots : Key → Slot Value) (keys : List Key) (name : Key) :
    run slots (keys.map .delete) name =
      if name ∈ keys then (slots name).delete else slots name := by
  induction keys generalizing slots with
  | nil => rfl
  | cons key rest ih =>
    refine (ih _).trans ?_
    have again (slot : Slot Value) : slot.delete.delete = slot.delete := by cases slot <;> rfl
    by_cases here : key = name
    · subst here
      simp [apply, again]
    · simp [apply, Ne.symm here]

/-- Every file on its own: the values written to it and whether it is deleted then. -/
theorem run_replace (key : Value → Key) (slots : Key → Slot Value) (values : List Value)
    (removed : List Key) (name : Key) :
    run slots (values.map (fun value => .write (key value) value) ++ removed.map .delete) name =
      (slots name).replace (values.filter fun value => key value = name)
        (decide (name ∈ removed)) := by
  rw [run_append, run_deletes, run_writes]
  by_cases member : name ∈ removed
  · simp [Slot.replace, member]
  · simp [Slot.replace, member]

end Brooklyn.SingleUseFiles
