import Mathlib.Data.List.TakeWhile

/-!
What the modelled code does with a `String`, here a list of characters: `trim`, the last word,
and case that is ignored. Lower case is that of ASCII.
-/

namespace Brooklyn

/-- `String.trim` -/
def trim (text : List Char) : List Char :=
  ((text.dropWhile (· ≤ ' ')).reverse.dropWhile (· ≤ ' ')).reverse

/-- `Strings.getLastWord`, what follows the last space. -/
def getLastWord (text : List Char) : List Char :=
  ((trim text).reverse.takeWhile (· ≠ ' ')).reverse

def toLowerCase (text : List Char) : List Char := text.map Char.toLower

def equalsIgnoreCase (text other : List Char) : Bool := toLowerCase text == toLowerCase other

theorem length_toLowerCase (text : List Char) : (toLowerCase text).length = text.length :=
  List.length_map _

theorem toLowerCase_append (text other : List Char) :
    toLowerCase (text ++ other) = toLowerCase text ++ toLowerCase other :=
  List.map_append

/-- Only the capital letters change. -/
theorem toLower_cases (c : Char) :
    c.toLower = c ∨ ('A' ≤ c ∧ c ≤ 'Z') ∧ c.toLower.toNat = c.toNat + 32 := by
  by_cases upper : c.val ≥ 'A'.val ∧ c.val ≤ 'Z'.val
  · have below : c.toNat ≤ 90 := upper.2
    have raised : c.toLower.val = c.val + 32 := congrArg Char.val (dif_pos upper)
    refine Or.inr ⟨upper, ?_⟩
    rw [← Char.toNat_val, raised, UInt32.toNat_add, Char.toNat_val]
    exact Nat.mod_eq_of_lt (show c.toNat + 32 < 2 ^ 32 by omega)
  · exact Or.inl (dif_neg upper)

theorem toLower_of_isDigit {c : Char} (digit : c.isDigit = true) : c.toLower = c := by
  refine (toLower_cases c).resolve_right fun ⟨upper, _⟩ => ?_
  simp only [Char.isDigit, Bool.and_eq_true, decide_eq_true_eq] at digit
  exact absurd (UInt32.le_trans upper.1 digit.2) (by decide)

/-- A letter in lower case is the letter, or its capital. -/
theorem eq_of_toLower {c letter capital : Char} (same : c.toLower = letter)
    (above : letter.toNat = capital.toNat + 32) : c = letter ∨ c = capital := by
  refine (toLower_cases c).imp (fun self => self.symm.trans same) fun ⟨_, raised⟩ => ?_
  rw [same, above] at raised
  exact Char.toNat_inj.mp (Nat.add_right_cancel raised).symm

theorem trim_sublist (text : List Char) : (trim text).Sublist text := by
  have front := List.dropWhile_sublist (l := text) (· ≤ ' ')
  have back := List.dropWhile_sublist (l := (text.dropWhile (· ≤ ' ')).reverse) (· ≤ ' ')
  exact (List.reverse_sublist.mp (by simpa [trim] using back)).trans front

theorem trim_subset (text : List Char) : trim text ⊆ text := (trim_sublist text).subset

/-- Texts that are joined, a separator before all but the first. -/
theorem intercalate_cons_flatMap {α : Type} (separator first : List α) (rest : List (List α)) :
    separator.intercalate (first :: rest) = first ++ rest.flatMap (separator ++ ·) := by
  induction rest generalizing first with
  | nil => simp [List.intercalate]
  | cons next rest ih =>
    rw [List.intercalate_cons_cons, ih, List.flatMap_cons, List.append_assoc, List.append_assoc]

/-- A check of all items, for a computation. -/
theorem forall_of_all {α : Type} {p : α → Prop} [DecidablePred p] {items : List α}
    (all : items.all (fun item => decide (p item)) = true) : ∀ item ∈ items, p item :=
  fun item member => of_decide_eq_true (List.all_eq_true.mp all item member)

theorem dropWhile_eq_self {α : Type} {p : α → Bool} {items : List α}
    (kept : ∀ item ∈ items.head?, p item = false) : items.dropWhile p = items := by
  cases items with
  | nil => rfl
  | cons item rest => exact List.dropWhile_cons_of_neg (by simp [kept item rfl])

/-- Visible characters at both ends keep a text from being trimmed. -/
theorem trim_eq_self {text : List Char} (first : ∀ c ∈ text.head?, ' ' < c)
    (last : ∀ c ∈ text.getLast?, ' ' < c) : trim text = text := by
  have front : text.dropWhile (· ≤ ' ') = text :=
    dropWhile_eq_self fun c head => decide_eq_false (Char.not_le.mpr (first c head))
  have back : text.reverse.dropWhile (· ≤ ' ') = text.reverse :=
    dropWhile_eq_self fun c head =>
      decide_eq_false (Char.not_le.mpr (last c (by rwa [List.head?_reverse] at head)))
  rw [trim, front, back, List.reverse_reverse]

/-- A visible character outlives trimming. -/
theorem mem_trim {text : List Char} {c : Char} (member : c ∈ text) (visible : ' ' < c) :
    c ∈ trim text := by
  have stays : ∀ items : List Char, c ∈ items → c ∈ items.dropWhile (· ≤ ' ') := by
    intro items inside
    induction items with
    | nil => exact inside
    | cons item rest ih =>
      rw [List.dropWhile_cons]
      split
      next small =>
        refine ih ((List.mem_cons.mp inside).resolve_left ?_)
        rintro rfl
        exact absurd (of_decide_eq_true small) (Char.not_le.mpr visible)
      next => exact inside
  exact List.mem_reverse.mpr (stays _ (List.mem_reverse.mpr (stays text member)))

theorem length_trim_le (text : List Char) : (trim text).length ≤ text.length :=
  (trim_sublist text).length_le

theorem length_getLastWord_le (text : List Char) : (getLastWord text).length ≤ text.length := by
  have word := (List.takeWhile_sublist (l := (trim text).reverse) (· ≠ ' ')).length_le
  have trimmed := length_trim_le text
  simp only [getLastWord, List.length_reverse] at word ⊢
  exact word.trans trimmed

/-- Characters that are not trimmed. -/
def Visible (text : List Char) : Prop := ∀ c ∈ text, ' ' < c

theorem Visible.append {text other : List Char} (word : Visible text) (another : Visible other) :
    Visible (text ++ other) := fun c member =>
  (List.mem_append.mp member).elim (word c) (another c)

theorem Visible.lower {text : List Char} (word : Visible text) : Visible (toLowerCase text) := by
  intro c member
  obtain ⟨d, inside, rfl⟩ := List.mem_map.mp member
  rcases toLower_cases d with same | ⟨-, raised⟩
  · rw [same]
    exact word d inside
  · have visible : 32 < d.toNat := word d inside
    exact show 32 < d.toLower.toNat by omega

theorem Visible.trim {text : List Char} (word : Visible text) : trim text = text :=
  trim_eq_self (fun c head => word c (List.mem_of_mem_head? head))
    fun c last => word c (List.mem_of_mem_getLast? last)

theorem Visible.no_space {text : List Char} (word : Visible text) :
    ∀ c ∈ text, (c != ' ') = true := by
  intro c member
  have visible := word c member
  exact bne_iff_ne.mpr (by rintro rfl; exact Char.lt_irrefl _ visible)

theorem trim_nil : trim [] = [] := rfl

/-- A text that is not trimmed has no blank at its start. -/
theorem head_of_trim {text : List Char} (trimmed : trim text = text) :
    ∀ c ∈ text.head?, ' ' < c := by
  intro c head
  cases text with
  | nil => cases head
  | cons d rest =>
    obtain rfl : d = c := by simpa using head
    by_contra blank
    have dropped : trim (d :: rest) = trim rest := by
      have leading : (d :: rest).dropWhile (· ≤ ' ') = rest.dropWhile (· ≤ ' ') :=
        List.dropWhile_cons_of_pos (decide_eq_true (Char.not_lt.mp blank))
      rw [trim, leading, trim]
    have shorter := length_trim_le rest
    rw [← dropped, trimmed, List.length_cons] at shorter
    omega

theorem dropWhile_spaces (n : Nat) (text : List Char) :
    (List.replicate n ' ' ++ text).dropWhile (· ≤ ' ') = text.dropWhile (· ≤ ' ') :=
  List.dropWhile_append_of_pos fun c member => by rw [List.eq_of_mem_replicate member]; decide

/-- Spaces behind a text that is not trimmed. -/
theorem trim_spaces {front : List Char} (trimmed : trim front = front) (n : Nat) :
    trim (front ++ List.replicate n ' ') = front := by
  cases front with
  | nil =>
    have none_left : (List.replicate n ' ').dropWhile (· ≤ ' ') = [] := by simp
    rw [List.nil_append, trim, none_left]
    rfl
  | cons c rest =>
    have visible := head_of_trim trimmed c rfl
    have stays : ∀ behind, (c :: rest ++ behind).dropWhile (· ≤ ' ') = c :: rest ++ behind :=
      fun behind => dropWhile_eq_self fun d head => by
        obtain rfl : c = d := by simpa using head
        exact decide_eq_false (Char.not_le.mpr visible)
    have self := stays []
    rw [List.append_nil] at self
    rw [trim, self] at trimmed
    rw [trim, stays, List.reverse_append, List.reverse_replicate, dropWhile_spaces, trimmed]

/-- A word without a space makes the last word of a text longer. -/
theorem getLastWord_append {front word : List Char} (visible : Visible word)
    (whole : trim (front ++ word) = front ++ word) :
    getLastWord (front ++ word) = (front.reverse.takeWhile (· ≠ ' ')).reverse ++ word := by
  have all : ∀ c ∈ word.reverse, decide (c ≠ ' ') = true := fun c member => by
    simpa using visible.no_space c (List.mem_reverse.mp member)
  rw [getLastWord, whole, List.reverse_append, List.takeWhile_append_of_pos all,
    List.reverse_append, List.reverse_reverse]

theorem trim_word_space {front : List Char} (before : Visible front) :
    trim (front ++ [' ']) = front :=
  trim_spaces before.trim 1

end Brooklyn
