/-!
Loops that read one thing after another and fault at the first that cannot be read.
-/

namespace Brooklyn.ReadingLoops

variable {Source Read Fault : Type}

/-- The loop comes to its end when everything can be read. -/
theorem foldlM_ok_iff {State : Type} (read : Source → Except Fault Read)
    (step : State → Read → State) {sources : List Source} {initial final : State} :
    sources.foldlM (fun state source => do return step state (← read source)) initial =
        .ok final ↔
      ∃ reads : List Read,
        sources.map read = reads.map Except.ok ∧ reads.foldl step initial = final := by
  induction sources generalizing initial with
  | nil =>
    constructor
    · intro done
      cases done
      exact ⟨[], rfl, rfl⟩
    · rintro ⟨reads, same, rfl⟩
      rw [List.map_nil, eq_comm, List.map_eq_nil_iff] at same
      rw [same]
      rfl
  | cons source sources ih =>
    rw [List.foldlM_cons, List.map_cons]
    cases first : read source with
    | error fault =>
      constructor
      · exact nofun
      · rintro ⟨_ | ⟨_, _⟩, same, _⟩ <;> cases same
    | ok value =>
      refine Iff.trans ih ?_
      constructor
      · rintro ⟨reads, same, done⟩
        exact ⟨value :: reads, by rw [same]; rfl, done⟩
      · rintro ⟨_ | ⟨other, reads⟩, same, done⟩
        · cases same
        · rw [List.map_cons, List.cons.injEq] at same
          obtain ⟨head, same⟩ := same
          cases head
          exact ⟨reads, same, done⟩

theorem mem_reads_iff {read : Source → Except Fault Read}
    {sources : List Source} {reads : List Read}
    (same : sources.map read = reads.map Except.ok) (value : Read) :
    value ∈ reads ↔ ∃ source ∈ sources, read source = .ok value := by
  have through : value ∈ reads ↔
      Except.ok value ∈ reads.map (Except.ok : Read → Except Fault Read) :=
    ⟨List.mem_map_of_mem, fun member => by
      obtain ⟨other, there, equal⟩ := List.mem_map.mp member
      cases equal
      exact there⟩
  rw [through, ← same, List.mem_map]

theorem read_of_mem {read : Source → Except Fault Read}
    {sources : List Source} {reads : List Read}
    (same : sources.map read = reads.map Except.ok) {source : Source} (member : source ∈ sources) :
    ∃ value ∈ reads, read source = .ok value := by
  have there : read source ∈ reads.map Except.ok := same ▸ List.mem_map_of_mem member
  obtain ⟨value, listed, equal⟩ := List.mem_map.mp there
  exact ⟨value, listed, equal.symm⟩

theorem exists_reads (read : Source → Except Fault Read) {sources : List Source}
    (readable : ∀ source ∈ sources, ∃ value, read source = .ok value) :
    ∃ reads : List Read, sources.map read = reads.map Except.ok := by
  induction sources with
  | nil => exact ⟨[], rfl⟩
  | cons source sources ih =>
    obtain ⟨value, first⟩ := readable source List.mem_cons_self
    obtain ⟨reads, rest⟩ := ih fun other member => readable other (List.mem_cons_of_mem _ member)
    exact ⟨value :: reads, by rw [List.map_cons, first, rest]; rfl⟩

end Brooklyn.ReadingLoops
