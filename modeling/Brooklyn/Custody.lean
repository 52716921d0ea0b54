import Mathlib.Data.List.Nodup
import Mathlib.Data.List.Perm.Basic
import Mathlib.Logic.Function.Basic

/-!
Tokens and the places where they are. A ledger lists the tokens issued so far and
gives each of them one place; a token changes place by a transfer. `At` says where a
token is, `count` counts the tokens at places of one kind, and a transfer changes
such a count by what the two places contribute. Lists and counters that a program
keeps about its tokens are compared with the ledger.

Places may belong to threads. `Carried` says that the tokens at the places of each
thread are those its program counter has in hand, and `transfer_carried` is the step
of one thread.
-/

namespace Brooklyn.Custody

universe u v w
variable {Token : Type u} {Place : Type v}

structure Ledger (Token : Type u) (Place : Type v) where
  tokens : List Token
  distinct : tokens.Nodup
  place : Token → Place

namespace Ledger

def At (ledger : Ledger Token Place) (token : Token) (place : Place) : Prop :=
  token ∈ ledger.tokens ∧ ledger.place token = place

theorem At.unique {ledger : Ledger Token Place} {token : Token} {place other : Place}
    (here : ledger.At token place) (there : ledger.At token other) : place = other :=
  here.2.symm.trans there.2

def count (ledger : Ledger Token Place) (counts : Place → Bool) : Nat :=
  ledger.tokens.countP fun token => counts (ledger.place token)

theorem count_or {ledger : Ledger Token Place} {left right : Place → Bool}
    (apart : ∀ place, left place = true → right place = false) :
    (ledger.count fun place => left place || right place) =
      ledger.count left + ledger.count right := by
  unfold count
  induction ledger.tokens with
  | nil => rfl
  | cons token rest ih =>
    rw [List.countP_cons, List.countP_cons, List.countP_cons, ih]
    cases here : left (ledger.place token) with
    | false => simp [here, Nat.add_assoc]
    | true => simp [here, apart _ here, Nat.add_right_comm]

/-- The list has the tokens at one place, each once. -/
structure Lists (ledger : Ledger Token Place) (place : Place) (list : List Token) : Prop where
  distinct : list.Nodup
  listed : ∀ token, token ∈ list ↔ ledger.At token place

/-- The list has the names of the places where a token is, each once. -/
structure Named {Name : Type w} (ledger : Ledger Token Place) (name : Place → Option Name)
    (names : List Name) : Prop where
  distinct : names.Nodup
  named : ∀ one, one ∈ names ↔ ∃ token place, ledger.At token place ∧ name place = some one
  unique : ∀ left right here there one, ledger.At left here → ledger.At right there →
    name here = some one → name there = some one → left = right

/-- A list of the tokens at the places of one kind is as long as their count. -/
theorem length_eq_count {ledger : Ledger Token Place} {counts : Place → Bool} {list : List Token}
    (distinct : list.Nodup)
    (listed : ∀ token, token ∈ list ↔
      token ∈ ledger.tokens ∧ counts (ledger.place token) = true) :
    list.length = ledger.count counts := by
  have perm : list.Perm (ledger.tokens.filter fun token => counts (ledger.place token)) :=
    (List.perm_ext_iff_of_nodup distinct (ledger.distinct.filter _)).mpr fun token => by
      rw [listed, List.mem_filter]
  rw [perm.length_eq, count, List.countP_eq_length_filter]

theorem Named.length_eq_count {Name : Type w} {ledger : Ledger Token Place}
    {name : Place → Option Name} {names : List Name} (listed : ledger.Named name names) :
    names.length = ledger.count fun place => (name place).isSome := by
  have distinct : (ledger.tokens.filterMap fun token => name (ledger.place token)).Nodup := by
    refine List.pairwise_filterMap.mpr (ledger.distinct.imp_of_mem ?_)
    rintro left right here there different one first other second rfl
    exact different
      (listed.unique left right _ _ one ⟨here, rfl⟩ ⟨there, rfl⟩ first second)
  have perm : names.Perm (ledger.tokens.filterMap fun token => name (ledger.place token)) := by
    refine (List.perm_ext_iff_of_nodup listed.distinct distinct).mpr fun one => ?_
    rw [listed.named, List.mem_filterMap]
    constructor
    · rintro ⟨token, _, ⟨member, rfl⟩, named⟩
      exact ⟨token, member, named⟩
    · rintro ⟨token, member, named⟩
      exact ⟨token, _, ⟨member, rfl⟩, named⟩
  rw [perm.length_eq, count, List.length_filterMap_eq_countP]

section Relocation

/-- Every token at a place goes to another one. -/
def relocate (ledger : Ledger Token Place) (move : Place → Place) : Ledger Token Place where
  tokens := ledger.tokens
  distinct := ledger.distinct
  place := move ∘ ledger.place

variable {ledger : Ledger Token Place} {move : Place → Place}

theorem at_relocate (token : Token) (place : Place) :
    (ledger.relocate move).At token place ↔ ∃ here, ledger.At token here ∧ move here = place := by
  constructor
  · rintro ⟨member, moved⟩
    exact ⟨_, ⟨member, rfl⟩, moved⟩
  · rintro ⟨_, ⟨member, rfl⟩, moved⟩
    exact ⟨member, moved⟩

theorem named_relocated {Name : Type w} {name : Place → Option Name} {names : List Name}
    (listed : ledger.Named name names) (same : ∀ place, name (move place) = name place) :
    (ledger.relocate move).Named name names := by
  refine ⟨listed.distinct, fun one => ?_, ?_⟩
  · rw [listed.named]
    constructor
    · rintro ⟨token, here, stands, named⟩
      exact ⟨token, move here, (at_relocate _ _).mpr ⟨here, stands, rfl⟩, (same here).trans named⟩
    · rintro ⟨token, there, moved, named⟩
      obtain ⟨here, stands, rfl⟩ := (at_relocate _ _).mp moved
      exact ⟨token, here, stands, (same here).symm.trans named⟩
  · intro left right first second one atFirst atSecond firstNamed secondNamed
    obtain ⟨here, stands, rfl⟩ := (at_relocate _ _).mp atFirst
    obtain ⟨there, also, rfl⟩ := (at_relocate _ _).mp atSecond
    exact listed.unique left right here there one stands also
      ((same here).symm.trans firstNamed) ((same there).symm.trans secondNamed)

theorem count_relocate (counts : Place → Bool) :
    (ledger.relocate move).count counts = ledger.count fun place => counts (move place) := rfl

theorem lists_emptied {place : Place} (left : ∀ here, move here ≠ place) :
    (ledger.relocate move).Lists place [] := by
  refine ⟨List.nodup_nil, fun token => ?_⟩
  rw [at_relocate]
  constructor
  · intro member
    cases member
  · rintro ⟨here, _, same⟩
    exact absurd same (left here)

theorem lists_merged {first second place : Place} {list rest : List Token}
    (lists : ledger.Lists first list) (others : ledger.Lists second rest)
    (apart : first ≠ second) (merge : ∀ here, move here = place ↔ here = first ∨ here = second) :
    (ledger.relocate move).Lists place (list ++ rest) := by
  refine ⟨List.nodup_append.mpr ⟨lists.distinct, others.distinct, ?_⟩, fun token => ?_⟩
  · rintro token listed other also rfl
    exact apart (((lists.listed token).mp listed).unique ((others.listed token).mp also))
  · rw [List.mem_append, lists.listed, others.listed, at_relocate]
    constructor
    · rintro (here | here)
      · exact ⟨first, here, (merge first).mpr (Or.inl rfl)⟩
      · exact ⟨second, here, (merge second).mpr (Or.inr rfl)⟩
    · rintro ⟨here, stands, moved⟩
      rcases (merge here).mp moved with rfl | rfl
      · exact Or.inl stands
      · exact Or.inr stands

end Relocation

section Changes
variable [DecidableEq Token]

def issue (ledger : Ledger Token Place) (token : Token) (place : Place)
    (fresh : token ∉ ledger.tokens) : Ledger Token Place where
  tokens := ledger.tokens ++ [token]
  distinct := by simpa using ledger.distinct.concat fresh
  place := Function.update ledger.place token place

def transfer (ledger : Ledger Token Place) (token : Token) (place : Place) :
    Ledger Token Place where
  tokens := ledger.tokens
  distinct := ledger.distinct
  place := Function.update ledger.place token place

variable {ledger : Ledger Token Place} {token : Token} {place : Place}

theorem at_issue (fresh : token ∉ ledger.tokens) (other : Token) (there : Place) :
    (ledger.issue token place fresh).At other there ↔
      (other = token ∧ there = place) ∨ ledger.At other there := by
  by_cases same : other = token
  · subst other
    simp [At, issue, fresh, eq_comm]
  · simp [At, issue, same]

theorem at_transfer {here : Place} (stands : ledger.At token here) (other : Token)
    (there : Place) : (ledger.transfer token place).At other there ↔
      (other = token ∧ there = place) ∨ (other ≠ token ∧ ledger.At other there) := by
  by_cases same : other = token
  · subst other
    simp [At, transfer, stands.1, eq_comm]
  · simp [At, transfer, same]

/-- Two ways to count that agree but on one of the tokens. -/
theorem countP_of_agree {tokens : List Token} (distinct : tokens.Nodup) (member : token ∈ tokens)
    {left right : Token → Bool} (agree : ∀ other ∈ tokens, other ≠ token → left other = right other) :
    tokens.countP left + (right token).toNat = tokens.countP right + (left token).toNat := by
  have perm := List.perm_cons_erase member
  have rest : (tokens.erase token).countP left = (tokens.erase token).countP right :=
    List.countP_congr fun other kept => by
      obtain ⟨different, present⟩ := distinct.mem_erase_iff.mp kept
      rw [agree other present different]
  rw [perm.countP_eq left, perm.countP_eq right, List.countP_cons, List.countP_cons, rest]
  cases left token <;> cases right token <;> simp

theorem count_issue (fresh : token ∉ ledger.tokens) (counts : Place → Bool) :
    (ledger.issue token place fresh).count counts =
      ledger.count counts + (counts place).toNat := by
  have others : ledger.tokens.countP (fun other =>
      counts (Function.update ledger.place token place other)) = ledger.count counts :=
    List.countP_congr fun other member => by
      have different : other ≠ token := by
        rintro rfl
        exact fresh member
      rw [Function.update_of_ne different]
  unfold count issue
  rw [List.countP_append, others, List.countP_singleton]
  cases counted : counts place <;> simp [count, counted]

/-- What the token counted for where it was goes, what it counts for now comes. -/
theorem count_transfer {here : Place} (stands : ledger.At token here) (there : Place)
    (counts : Place → Bool) :
    (ledger.transfer token there).count counts + (counts here).toNat =
      ledger.count counts + (counts there).toNat := by
  have agree : ∀ other ∈ ledger.tokens, other ≠ token →
      counts (Function.update ledger.place token there other) = counts (ledger.place other) := by
    intro other _ different
    rw [Function.update_of_ne different]
  have counted := countP_of_agree ledger.distinct stands.1 agree
  rw [Function.update_self, stands.2] at counted
  exact counted

section Listings
variable {list : List Token} {here there : Place}

theorem lists_kept (lists : ledger.Lists place list) (stands : ledger.At token here)
    (from_elsewhere : here ≠ place) (to_elsewhere : there ≠ place) :
    (ledger.transfer token there).Lists place list := by
  refine ⟨lists.distinct, fun other => ?_⟩
  rw [lists.listed, at_transfer stands]
  constructor
  · intro listed
    refine Or.inr ⟨?_, listed⟩
    rintro rfl
    exact from_elsewhere (stands.unique listed)
  · rintro (⟨_, same⟩ | ⟨_, listed⟩)
    · exact absurd same.symm to_elsewhere
    · exact listed

theorem lists_gained (lists : ledger.Lists place list) (stands : ledger.At token here)
    (from_elsewhere : here ≠ place) :
    (ledger.transfer token place).Lists place (list ++ [token]) := by
  have unlisted : token ∉ list := by
    rw [lists.listed]
    exact fun listed => from_elsewhere (stands.unique listed)
  refine ⟨by simpa using lists.distinct.concat unlisted, fun other => ?_⟩
  rw [at_transfer stands, ← lists.listed, List.mem_append, List.mem_singleton]
  constructor
  · rintro (listed | rfl)
    · refine Or.inr ⟨?_, listed⟩
      rintro rfl
      exact unlisted listed
    · exact Or.inl ⟨rfl, rfl⟩
  · rintro (⟨rfl, _⟩ | ⟨_, listed⟩)
    · exact Or.inr rfl
    · exact Or.inl listed

theorem lists_erased (lists : ledger.Lists place list) (stands : ledger.At token place)
    (to_elsewhere : there ≠ place) :
    (ledger.transfer token there).Lists place (list.erase token) := by
  refine ⟨lists.distinct.erase token, fun other => ?_⟩
  rw [lists.distinct.mem_erase_iff, lists.listed, at_transfer stands]
  constructor
  · exact Or.inr
  · rintro (⟨_, same⟩ | stays)
    · exact absurd same.symm to_elsewhere
    · exact stays

theorem lists_lost (lists : ledger.Lists place (list ++ [token])) (to_elsewhere : there ≠ place) :
    (ledger.transfer token there).Lists place list := by
  have stands : ledger.At token place := (lists.listed token).mp (by simp)
  have unlisted : token ∉ list := fun listed =>
    (List.nodup_append.mp lists.distinct).2.2 token listed token (by simp) rfl
  have rest := lists_erased lists stands to_elsewhere
  rwa [List.erase_append_right [token] unlisted, List.erase_cons_head, List.append_nil] at rest

theorem lists_issued (lists : ledger.Lists place list) (fresh : token ∉ ledger.tokens)
    (elsewhere : there ≠ place) : (ledger.issue token there fresh).Lists place list := by
  refine ⟨lists.distinct, fun other => ?_⟩
  rw [at_issue fresh, lists.listed]
  refine (or_iff_right ?_).symm
  rintro ⟨_, same⟩
  exact elsewhere same.symm

end Listings

section Names
variable {Name : Type w} {name : Place → Option Name} {names : List Name} {here there : Place}

theorem named_kept (listed : ledger.Named name names) (stands : ledger.At token here)
    (same : name there = name here) : (ledger.transfer token there).Named name names := by
  -- A token found after the transfer was found before, at a place of the same name.
  have back {other : Token} {found : Place} (after : (ledger.transfer token there).At other found) :
      ∃ place, ledger.At other place ∧ name place = name found := by
    rcases (at_transfer stands other found).mp after with ⟨rfl, rfl⟩ | ⟨_, before⟩
    · exact ⟨here, stands, same.symm⟩
    · exact ⟨found, before, rfl⟩
  refine ⟨listed.distinct, fun one => ?_, ?_⟩
  · rw [listed.named]
    constructor
    · rintro ⟨other, found, before, named⟩
      by_cases moved : other = token
      · subst other
        rw [stands.unique before] at same
        exact ⟨token, there, (at_transfer stands _ _).mpr (Or.inl ⟨rfl, rfl⟩), same.trans named⟩
      · exact ⟨other, found, (at_transfer stands _ _).mpr (Or.inr ⟨moved, before⟩), named⟩
    · rintro ⟨other, found, after, named⟩
      obtain ⟨place, before, equal⟩ := back after
      exact ⟨other, place, before, equal.trans named⟩
  · intro left right first second one atFirst atSecond firstNamed secondNamed
    obtain ⟨_, beforeFirst, equalFirst⟩ := back atFirst
    obtain ⟨_, beforeSecond, equalSecond⟩ := back atSecond
    exact listed.unique left right _ _ one beforeFirst beforeSecond
      (equalFirst.trans firstNamed) (equalSecond.trans secondNamed)

theorem named_gained {one : Name} (listed : ledger.Named name names)
    (stands : ledger.At token here) (unnamed : name here = none) (named : name there = some one)
    (fresh : one ∉ names) : (ledger.transfer token there).Named name (names ++ [one]) := by
  -- Any other name was there before, at the place of a token that did not move.
  have back {other : Token} {found : Place} {given : Name}
      (after : (ledger.transfer token there).At other found) (has : name found = some given) :
      (other = token ∧ given = one) ∨ (ledger.At other found ∧ given ≠ one) := by
    rcases (at_transfer stands other found).mp after with ⟨rfl, rfl⟩ | ⟨_, before⟩
    · exact Or.inl ⟨rfl, Option.some.inj (has.symm.trans named)⟩
    · refine Or.inr ⟨before, ?_⟩
      rintro rfl
      exact fresh ((listed.named given).mpr ⟨other, found, before, has⟩)
  refine ⟨by simpa using listed.distinct.concat fresh, fun given => ?_, ?_⟩
  · rw [List.mem_append, List.mem_singleton, listed.named]
    constructor
    · rintro (⟨other, found, before, has⟩ | rfl)
      · refine ⟨other, found, (at_transfer stands _ _).mpr (Or.inr ⟨?_, before⟩), has⟩
        rintro rfl
        rw [before.unique stands, unnamed] at has
        cases has
      · exact ⟨token, there, (at_transfer stands _ _).mpr (Or.inl ⟨rfl, rfl⟩), named⟩
    · rintro ⟨other, found, after, has⟩
      rcases back after has with ⟨_, same⟩ | ⟨before, _⟩
      · exact Or.inr same
      · exact Or.inl ⟨other, found, before, has⟩
  · intro left right first second given atFirst atSecond firstNamed secondNamed
    rcases back atFirst firstNamed with ⟨rfl, rfl⟩ | ⟨beforeFirst, different⟩
    · rcases back atSecond secondNamed with ⟨rfl, _⟩ | ⟨_, different⟩
      · rfl
      · exact absurd rfl different
    · rcases back atSecond secondNamed with ⟨_, same⟩ | ⟨beforeSecond, _⟩
      · exact absurd same different
      · exact listed.unique left right _ _ given beforeFirst beforeSecond firstNamed secondNamed

theorem named_lost [DecidableEq Name] {one : Name} (listed : ledger.Named name names)
    (stands : ledger.At token here) (named : name here = some one) (unnamed : name there = none) :
    (ledger.transfer token there).Named name (names.erase one) := by
  have back {other : Token} {found : Place} {given : Name}
      (after : (ledger.transfer token there).At other found) (has : name found = some given) :
      other ≠ token ∧ ledger.At other found := by
    rcases (at_transfer stands other found).mp after with ⟨rfl, rfl⟩ | elsewhere
    · rw [unnamed] at has
      cases has
    · exact elsewhere
  refine ⟨listed.distinct.erase one, fun given => ?_, ?_⟩
  · rw [listed.distinct.mem_erase_iff, listed.named]
    constructor
    · rintro ⟨different, other, found, before, has⟩
      refine ⟨other, found, (at_transfer stands _ _).mpr (Or.inr ⟨?_, before⟩), has⟩
      rintro rfl
      rw [before.unique stands, named] at has
      exact different (Option.some.inj has).symm
    · rintro ⟨other, found, after, has⟩
      obtain ⟨moved, before⟩ := back after has
      refine ⟨?_, other, found, before, has⟩
      rintro rfl
      exact moved (listed.unique other token _ _ given before stands has named)
  · intro left right first second given atFirst atSecond firstNamed secondNamed
    exact listed.unique left right _ _ given (back atFirst firstNamed).2
      (back atSecond secondNamed).2 firstNamed secondNamed

theorem named_issued (listed : ledger.Named name names) (fresh : token ∉ ledger.tokens)
    (unnamed : name there = none) : (ledger.issue token there fresh).Named name names := by
  have back {other : Token} {found : Place} {given : Name}
      (after : (ledger.issue token there fresh).At other found) (has : name found = some given) :
      ledger.At other found := by
    rcases (at_issue fresh other found).mp after with ⟨_, rfl⟩ | before
    · rw [unnamed] at has
      cases has
    · exact before
  refine ⟨listed.distinct, fun one => ?_, ?_⟩
  · rw [listed.named]
    constructor
    · rintro ⟨other, found, before, has⟩
      exact ⟨other, found, (at_issue fresh _ _).mpr (Or.inr before), has⟩
    · rintro ⟨other, found, after, has⟩
      exact ⟨other, found, back after has, has⟩
  · intro left right first second given atFirst atSecond firstNamed secondNamed
    exact listed.unique left right _ _ given (back atFirst firstNamed) (back atSecond secondNamed)
      firstNamed secondNamed

end Names

section Threads
variable {Thread : Type w} {owner : Place → Option Thread}
  {hand : Thread → Option (Token × Place)}

/-- At the places of a thread is what the thread has in hand. -/
def Carried (ledger : Ledger Token Place) (owner : Place → Option Thread)
    (hand : Thread → Option (Token × Place)) : Prop :=
  ∀ thread token place, owner place = some thread →
    (ledger.At token place ↔ hand thread = some (token, place))

/-- Nothing in hand for a place of nobody, else the token at the place. -/
def Holds (owner : Place → Option Thread) (thread : Thread) (token : Token) (place : Place)
    (held : Option (Token × Place)) : Prop :=
  (owner place = none ∧ held = none) ∨ (owner place = some thread ∧ held = some (token, place))

omit [DecidableEq Token] in
theorem carried_relocated {move : Place → Place} (carried : ledger.Carried owner hand)
    (fixed : ∀ place, (owner (move place)).isSome → move place = place)
    (still : ∀ place, (owner place).isSome → move place = place) :
    (ledger.relocate move).Carried owner hand := by
  intro thread token place belongs
  rw [← carried thread token place belongs, at_relocate]
  constructor
  · rintro ⟨here, stands, rfl⟩
    rw [fixed here (by rw [belongs]; rfl)]
    exact stands
  · intro stands
    exact ⟨place, stands, still place (by rw [belongs]; rfl)⟩

variable [DecidableEq Thread] {thread : Thread} {next : Option (Token × Place)}

theorem transfer_carried (carried : ledger.Carried owner hand) {here : Place}
    (stands : ledger.At token here) (before : Holds owner thread token here (hand thread))
    (after : Holds owner thread token place next) :
    (ledger.transfer token place).Carried owner (Function.update hand thread next) := by
  -- Nothing but the token was in the hands of the thread.
  have alone {other : Token} {there : Place} (held : hand thread = some (other, there)) :
      other = token := by
    rcases before with ⟨_, nothing⟩ | ⟨_, something⟩
    · rw [nothing] at held
      cases held
    · rw [something] at held
      cases held
      rfl
  have owned {there : Place} {held : Option (Token × Place)} {other : Thread}
      (holds : Holds owner thread token there held) (belongs : owner there = some other) :
      other = thread ∧ held = some (token, there) := by
    rcases holds with ⟨nobody, _⟩ | ⟨own, something⟩
    · rw [nobody] at belongs
      cases belongs
    · rw [own] at belongs
      cases belongs
      exact ⟨rfl, something⟩
  intro other carriedToken there belongs
  rw [at_transfer stands]
  by_cases same : other = thread
  · subst other
    rw [Function.update_self]
    constructor
    · rintro (⟨rfl, rfl⟩ | ⟨different, elsewhere⟩)
      · exact (owned after belongs).2
      · exact absurd (alone ((carried thread carriedToken there belongs).mp elsewhere)) different
    · intro held
      rcases after with ⟨_, nothing⟩ | ⟨_, something⟩
      · rw [nothing] at held
        cases held
      · rw [something] at held
        cases held
        exact Or.inl ⟨rfl, rfl⟩
  · rw [Function.update_of_ne same, ← carried other carriedToken there belongs]
    constructor
    · rintro (⟨rfl, rfl⟩ | ⟨_, elsewhere⟩)
      · exact absurd (owned after belongs).1 same
      · exact elsewhere
    · intro elsewhere
      refine Or.inr ⟨?_, elsewhere⟩
      rintro rfl
      rw [elsewhere.unique stands] at belongs
      exact same (owned before belongs).1

theorem issue_carried (carried : ledger.Carried owner hand) (fresh : token ∉ ledger.tokens)
    (empty : hand thread = none) (after : Holds owner thread token place next) :
    (ledger.issue token place fresh).Carried owner (Function.update hand thread next) := by
  intro other carriedToken there belongs
  rw [at_issue fresh, carried other carriedToken there belongs]
  by_cases same : other = thread
  · subst other
    rw [Function.update_self, empty]
    rcases after with ⟨nobody, rfl⟩ | ⟨own, rfl⟩
    · simp only [or_false, iff_false, reduceCtorEq]
      rintro ⟨_, rfl⟩
      rw [nobody] at belongs
      cases belongs
    · simp [eq_comm]
  · rw [Function.update_of_ne same]
    refine or_iff_right ?_
    rintro ⟨_, rfl⟩
    rcases after with ⟨nobody, _⟩ | ⟨own, _⟩
    · rw [nobody] at belongs
      cases belongs
    · rw [own] at belongs
      exact same (Option.some.inj belongs).symm

end Threads
end Changes
end Ledger
end Brooklyn.Custody
