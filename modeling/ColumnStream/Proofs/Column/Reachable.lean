/-
The columns there can be: assembled from parts that pass the check, empty, finished by a builder, cut
out of another column, or found below one. All of them are sound.
-/
import ColumnStream.Column.Builder
import ColumnStream.Proofs.Column.Content

namespace ColumnStream.Column

/-- A column that the constructors, the builders and slicing can bring about. -/
inductive Reachable : Column → Prop
  | assembled {type : DataType} {length nulls offset : Nat} {buffers : List Buffer} {children : List Column}
      {c : Column} : (∀ child ∈ children, Reachable child) →
      assemble type length nulls offset buffers children = .ok c → Reachable c
  | empty (t : DataType) : Reachable (empty t)
  | fixed {b : FixedBuilder} {c : Column} : b.finish = .ok c → Reachable c
  | boolean {b : BooleanBuilder} {c : Column} : b.finish = .ok c → Reachable c
  | varying {b : VariableBuilder} {c : Column} : b.finish = .ok c → Reachable c
  | sliced {c d : Column} {start count : Nat} : Reachable c → c.slice start count = .ok d → Reachable d
  | child {c child : Column} : Reachable c → child ∈ c.children → Reachable child

/-! ## Assembled columns -/

theorem assemble_eq_ok {type : DataType} {length nulls offset : Nat} {buffers : List Buffer}
    {children : List Column} {c : Column} :
    assemble type length nulls offset buffers children = .ok c ↔
      c = ⟨type, length, nulls, offset, buffers, children⟩ ∧ c.WellFormed := by
  simp only [assemble, bind_eq_ok]
  constructor
  · rintro ⟨⟨⟩, checked, h⟩
    cases h
    exact ⟨rfl, check_eq_ok.1 checked⟩
  · rintro ⟨rfl, wf⟩
    exact ⟨(), check_eq_ok.2 wf, rfl⟩

theorem sound_of_assemble {type : DataType} {length nulls offset : Nat} {buffers : List Buffer}
    {children : List Column} {c : Column} (each : ∀ child ∈ children, child.Sound)
    (h : assemble type length nulls offset buffers children = .ok c) : c.Sound := by
  obtain ⟨rfl, wf⟩ := assemble_eq_ok.1 h
  exact .intro wf each

theorem VariableBuilder.finish_ok {b : VariableBuilder} {c : Column} (h : b.finish = .ok c) :
    ∃ offsets, assemble (if b.isText then .utf8 else .binary) b.length b.valid.validity.1 0
      [b.valid.validity.2, offsets, b.values] [] = .ok c := by
  unfold VariableBuilder.finish at h
  simp only at h
  split at h
  · exact ⟨_, h⟩
  · obtain ⟨offsets, -, h⟩ := bind_eq_ok.1 h
    exact ⟨offsets, h⟩

/-! ## Empty columns -/

theorem empty_eq (t : DataType) : empty t = ⟨t, 0, 0, 0, t.roles.map fun _ => #[], emptyAll t.children⟩ := by
  cases t <;> simp [empty, emptyAll, DataType.children, DataType.roles]

theorem mem_emptyAll {fields : List Field} {c : Column} (mem : c ∈ emptyAll fields) :
    ∃ f ∈ fields, c = empty f.type := by
  induction fields with
  | nil => simp [emptyAll] at mem
  | cons f fields ih =>
    obtain ⟨name, t, nullable⟩ := f
    rcases List.mem_cons.1 mem with rfl | mem
    · exact ⟨_, List.mem_cons_self .., rfl⟩
    · obtain ⟨f, hf, rfl⟩ := ih mem
      exact ⟨f, List.mem_cons_of_mem _ hf, rfl⟩

theorem map_type_emptyAll (fields : List Field) : (emptyAll fields).map (·.type) = fields.map (·.type) := by
  induction fields with
  | nil => rfl
  | cons f fields ih =>
    obtain ⟨name, t, nullable⟩ := f
    simp [emptyAll, ih, empty_eq]

theorem wellFormed_empty (t : DataType) : (empty t).WellFormed := by
  have bytes {role : Role} (mem : role ∈ t.roles) : (empty t).bytesOf role = #[] := by
    have same := buffers_eq (c := empty t) (by simp [empty_eq])
    simp only [empty_eq, List.map_inj_left] at same
    rw [empty_eq]
    exact (same role mem).symm
  have validity : (empty t).validity? = none := by
    rw [validity?_eq (by simp [empty_eq]), bytes (roles_validity t)]
    rfl
  have length : (empty t).length = 0 := by rw [empty_eq]
  refine ⟨by simp [empty_eq], by simp [empty_eq, map_type_emptyAll], by simp [empty_eq],
    by simp [empty_eq, stop, wordSize], fun role _ other => ⟨0, ?_, Nat.zero_le _⟩, ?_, ?_⟩
  · simp only [empty_eq, stop]
    cases role with
    | validity => exact absurd rfl other
    | offsets => rfl
    | values => cases t <;> simp [DataType.leastLength?, bytesFor, fitting?, wordSize]
  · rw [Counted, validity]
    simp [empty_eq]
  · unfold Filled
    rw [length]
    cases (empty t).type <;> simp [stop, empty_eq]

theorem sound_empty (t : DataType) : (empty t).Sound := by
  induction t using DataType.inductChildren with
  | step t ih =>
    refine .intro (wellFormed_empty t) fun child mem => ?_
    rw [empty_eq] at mem
    obtain ⟨f, hf, rfl⟩ := mem_emptyAll mem
    exact ih f hf

/-! ## All of them -/

/-- Whatever was built and cut is well formed down to its last child. -/
theorem Reachable.sound {c : Column} (h : Reachable c) : c.Sound := by
  induction h with
  | assembled _ made ih => exact sound_of_assemble ih made
  | empty t => exact sound_empty t
  | fixed made => exact sound_of_assemble (by simp) made
  | boolean made => exact sound_of_assemble (by simp) made
  | varying made =>
    obtain ⟨offsets, made⟩ := VariableBuilder.finish_ok made
    exact sound_of_assemble (by simp) made
  | sliced _ cut ih => exact ih.slice cut
  | child _ mem ih => exact ih.child mem

end ColumnStream.Column
