import Brooklyn.BalancingQuiescence

/-!
The load of the two containers of each move of `rebalance`. The receiver ends below
what the donor had exactly when the donor could give an item lighter than the
difference between them: the search takes such an item if there is one, whether
within the maximum or as the smallest that it falls back on.
-/

namespace Brooklyn
namespace DefaultBalanceablePoolModel
variable {Container Item : Type} [DecidableEq Container] [DecidableEq Item]

section Along
variable (order : SetOrder Item)

/-- `holds` of every move and of the model before it. -/
def Along (holds : DefaultBalanceablePoolModel Container Item → Move Container Item → Prop) :
    DefaultBalanceablePoolModel Container Item → List (Move Container Item) → Prop
  | _, [] => True
  | model, move :: rest => holds model move ∧ Along holds (model.moveItem order move) rest

variable {order} {model middle after : DefaultBalanceablePoolModel Container Item}
    {moves more : List (Move Container Item)}
    {holds other : DefaultBalanceablePoolModel Container Item → Move Container Item → Prop}

theorem Along.append (first : Along order holds model moves)
    (carries : Carries order model moves middle) (second : Along order holds middle more) :
    Along order holds model (moves ++ more) := by
  induction carries with
  | nil => exact second
  | cons _ _ ih => exact ⟨first.1, ih first.2 second⟩

theorem Along.imp (both : Along order (fun before move => holds before move → other before move)
    model moves) (first : Along order holds model moves) : Along order other model moves := by
  induction moves generalizing model with
  | nil => trivial
  | cons move rest ih => exact ⟨both.1 first.1, ih both.2 first.2⟩

theorem Along.mono (weaker : ∀ before move, holds before move → other before move)
    (first : Along order holds model moves) : Along order other model moves := by
  induction moves generalizing model with
  | nil => trivial
  | cons move rest ih => exact ⟨weaker model move first.1, ih first.2⟩

theorem Picks.along {itemsMoved : List Item} (picks : Picks order model itemsMoved moves after)
    (consistent : Consistent model)
    (each : ∀ before itemsMoved move, Consistent before → Chosen before itemsMoved move →
      holds before move) : Along order holds model moves := by
  induction picks with
  | nil => trivial
  | cons chosen _ ih =>
      exact ⟨each _ _ _ consistent chosen,
        ih (moveItem_consistent order consistent chosen.valid)⟩

theorem Balances.along {nodes : List Container} {passes : List (List (Move Container Item))}
    (balances : Balances order nodes model passes after) (consistent : Consistent model)
    (inPool : ∀ node ∈ nodes, node ∈ model.containers)
    (each : ∀ before itemsMoved move, Consistent before → Chosen before itemsMoved move →
      holds before move) : Along order holds model passes.flatten := by
  induction balances with
  | nil => trivial
  | cons balanced _ ih =>
      obtain ⟨pass, same, picks, _⟩ :=
        balanceItemsOnNodesInQuestion_picks order consistent (inPool _ List.mem_cons_self)
      rw [balanced] at same
      cases same
      have later := ih (picks.carries.consistent consistent)
        fun other member => picks.carries.containers ▸ inPool other (List.mem_cons_of_mem _ member)
      exact (picks.along consistent each).append picks.carries later

theorem rebalance_along (order : SetOrder Item) (consistent : Consistent model)
    (each : ∀ before itemsMoved move, Consistent before → Chosen before itemsMoved move →
      holds before move) :
    ∃ after moves, model.rebalance order = some (after, moves) ∧ Along order holds model moves := by
  unfold rebalance checkAndApplyOn
  split
  · obtain ⟨⟨after, moves⟩, passes, finished, flat, balances⟩ :=
      balanceNodes_balances model.getPoolContents consistent fun _ => id
    change moves = passes.flatten at flat
    exact ⟨after, moves, finished, flat ▸ balances.along consistent (fun _ => id) each⟩
  · exact ⟨model, [], rfl, trivial⟩

end Along

section Relief
variable {model : DefaultBalanceablePoolModel Container Item} {move : Move Container Item}

/-- The move leaves the receiver below what the donor had. -/
def ReceiverStaysBelow (order : SetOrder Item) (model : DefaultBalanceablePoolModel Container Item)
    (move : Move Container Item) : Prop :=
  (model.moveItem order move).getTotalWorkrate move.newNode < model.getTotalWorkrate move.oldNode

/-- The donor holds an item that may be moved and is lighter than the difference. -/
def HasLighterItem (model : DefaultBalanceablePoolModel Container Item)
    (move : Move Container Item) : Prop :=
  ∃ item ∈ model.getItemsForContainer move.oldNode, model.isItemMoveable item = true ∧
    ∃ workrate, model.itemToWorkrate item = some workrate ∧ 0 < workrate ∧
      workrate < model.getTotalWorkrate move.oldNode - model.getTotalWorkrate move.newNode

theorem staysBelow_iff_relieves (order : SetOrder Item) (consistent : Consistent model)
    (valid : Valid model move) : ReceiverStaysBelow order model move ↔ Relieves move := by
  unfold ReceiverStaysBelow Relieves
  rw [total_newNode order consistent valid, valid.donor, valid.receiver]

omit [DecidableEq Container] in
theorem relieves_iff_lighter {itemsMoved : List Item} (chosen : Chosen model itemsMoved move) :
    Relieves move ↔ HasLighterItem model move := by
  have valid := chosen.valid
  unfold Relieves
  rw [valid.donor, valid.receiver]
  constructor
  · intro below
    exact ⟨move.item, valid.listed, valid.moveable, move.workrate, valid.rated, valid.positive,
      by linarith⟩
  · rintro ⟨item, listed, moveable, workrate, rated, positive, lighter⟩
    cases fell : move.fallback with
    | false =>
        have fits := valid.fits fell
        unfold Relieves at fits
        rwa [valid.donor, valid.receiver] at fits
    | true =>
        -- The fallback is the lightest item, so it is no heavier than the one that fits.
        have least := chosen.lightest fell item listed moveable workrate rated positive
        linarith

/-- Every move of a call leaves the receiver below what the donor had if and only if
each donor could give an item lighter than the difference. -/
theorem receivers_stay_below_iff (containerOrder : SetOrder Container) (order : SetOrder Item)
    (updates : List (Update Container Item)) :
    let model := built containerOrder order updates
    ∃ after moves, model.rebalance order = some (after, moves) ∧
      (Along order (ReceiverStaysBelow order) model moves ↔
        Along order HasLighterItem model moves) := by
  intro model
  have consistent : Consistent model := built_consistent containerOrder order updates
  obtain ⟨after, moves, finished, equivalent⟩ := rebalance_along order consistent
    fun before itemsMoved move settled chosen =>
      (staysBelow_iff_relieves order settled chosen.valid).trans (relieves_iff_lighter chosen)
  refine ⟨after, moves, finished, ?_, ?_⟩
  · exact (equivalent.mono fun _ _ both => both.mp).imp
  · exact (equivalent.mono fun _ _ both => both.mpr).imp

end Relief

section Swap

instance (order : SetOrder Item) (model : DefaultBalanceablePoolModel Container Item)
    (move : Move Container Item) : Decidable (ReceiverStaysBelow order model move) :=
  inferInstanceAs (Decidable (_ < _))

/-- The first move takes the item of 5 from 11 to 9. -/
theorem twoContainers_swap :
    ∃ after moves, twoContainers.rebalance (atEnd (Fin 3)) = some (after, moves) ∧
      ¬Along (atEnd (Fin 3)) (ReceiverStaysBelow (atEnd (Fin 3))) twoContainers moves := by
  have played : (twoContainers.rebalance (atEnd (Fin 3))).map (fun pass =>
      pass.2.head?.any fun move => !decide (ReceiverStaysBelow (atEnd (Fin 3)) twoContainers move)) =
        some true := by decide +kernel
  obtain ⟨⟨after, moves⟩, finished, shown⟩ := Option.map_eq_some_iff.mp played
  refine ⟨after, moves, finished, fun below => ?_⟩
  cases moves with
  | nil => cases shown
  | cons move rest => simp [below.1] at shown

end Swap
end DefaultBalanceablePoolModel
end Brooklyn
