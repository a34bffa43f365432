/-
Everything a program can come by: columns that are assembled, empty, built, cut out, found below another or in a
batch, and batches that are assembled, decoded or cut out. Decoding brings nothing that could not be assembled, so
that all columns keep the invariant of columns and all batches agree with their schema.
-/
import ColumnStream.Proofs.Batch.RoundTrip
import ColumnStream.Proofs.Batch.Total
import ColumnStream.Proofs.Column.Access

namespace ColumnStream

mutual

/-- A column that some sequence of operations on columns and batches brings about. -/
inductive Column.Obtained : Column → Prop
  | assembled {type : DataType} {length nulls offset : Nat} {buffers : List Buffer} {children : List Column}
      {c : Column} : (∀ child ∈ children, Column.Obtained child) →
      Column.assemble type length nulls offset buffers children = .ok c → Column.Obtained c
  | empty (t : DataType) : Column.Obtained (Column.empty t)
  | fixed {b : FixedBuilder} {c : Column} : b.finish = .ok c → Column.Obtained c
  | boolean {b : BooleanBuilder} {c : Column} : b.finish = .ok c → Column.Obtained c
  | varying {b : VariableBuilder} {c : Column} : b.finish = .ok c → Column.Obtained c
  | sliced {c d : Column} {start count : Nat} : Column.Obtained c → c.slice start count = .ok d → Column.Obtained d
  | child {c child : Column} : Column.Obtained c → child ∈ c.children → Column.Obtained child
  | column {b : Batch} {c : Column} : Batch.Obtained b → c ∈ b.columns → Column.Obtained c

/-- A batch that is assembled, with or without its number of rows, decoded, or cut out of another. -/
inductive Batch.Obtained : Batch → Prop
  | assembled {schema : Schema} {columns : List Column} {b : Batch} :
      (∀ c ∈ columns, Column.Obtained c) → Batch.assemble schema columns = .ok b → Batch.Obtained b
  | assembledWith {schema : Schema} {columns : List Column} {rows : Nat} {b : Batch} :
      (∀ c ∈ columns, Column.Obtained c) → rows < wordSize → Batch.assembleWith schema columns rows = .ok b →
      Batch.Obtained b
  | decoded {schema : Schema} {metadata : Bytes} {body : Buffer} {b : Batch} :
      Batch.decode schema metadata body = .ok b → Batch.Obtained b
  | sliced {b b' : Batch} {start count : Nat} : Batch.Obtained b → b.slice start count = .ok b' → Batch.Obtained b'

end

/-! ### The two lists -/

namespace Batch

theorem obtained_lists : lists.Obtained := by
  have below : items.Obtained := .assembled (by simp) assemble_items
  exact .assembled (by simpa using below) assemble_lists

theorem obtained_bothLists : Obtained ⟨secondList.schema, 2, [lists]⟩ :=
  .assembled (by simpa using obtained_lists) assemble_bothLists

theorem obtained_secondList : secondList.Obtained := obtained_bothLists.sliced slice_bothLists

end Batch

/-! ## Nothing but what is built -/

namespace Batch

theorem exists_slice_of_mem {columns parts : List Column} {start count : Nat}
    (cut : columns.mapM (fun c => c.slice start count) = .ok parts) :
    ∀ d ∈ parts, ∃ c ∈ columns, c.slice start count = .ok d := by
  induction columns generalizing parts with
  | nil =>
    cases cut
    simp
  | cons c columns ih =>
    rw [List.mapM_cons] at cut
    obtain ⟨first, own, cut⟩ := bind_eq_ok.1 cut
    obtain ⟨rest, others, cut⟩ := bind_eq_ok.1 cut
    cases cut
    refine List.forall_mem_cons.2 ⟨⟨c, List.mem_cons_self .., own⟩, fun d mem => ?_⟩
    obtain ⟨e, he, slice⟩ := ih others d mem
    exact ⟨e, List.mem_cons_of_mem _ he, slice⟩

theorem Reachable.column {b : Batch} (h : Reachable b) : ∀ c ∈ b.columns, c.Reachable := by
  induction h with
  | assembled each _ made =>
    obtain ⟨rfl, -⟩ := assembleWith_eq_ok.1 made
    exact each
  | sliced _ cut ih =>
    obtain ⟨stop, -, cut⟩ := bind_eq_ok.1 cut
    split at cut
    · obtain ⟨parts, made, cut⟩ := bind_eq_ok.1 cut
      cases cut
      intro d mem
      obtain ⟨c, hc, slice⟩ := exists_slice_of_mem made d mem
      exact (ih c hc).sliced slice
    · cases cut

theorem reachable_of_decode {schema : Schema} {metadata : Bytes} {body : Buffer} {b : Batch}
    (h : decode schema metadata body = .ok b) : b.Reachable :=
  (answers_decode schema metadata body).holds h

/-- The number of rows of a batch without one of its own is a machine word. -/
theorem reachable_of_assemble {schema : Schema} {columns : List Column} {b : Batch}
    (each : ∀ c ∈ columns, c.Reachable) (h : assemble schema columns = .ok b) : b.Reachable := by
  refine .assembled each ?_ h
  cases columns with
  | nil => decide
  | cons c columns =>
    have word := (each c (List.mem_cons_self ..)).sound.here.word
    unfold Column.stop at word
    show c.length < wordSize
    omega

end Batch

mutual

theorem Column.Obtained.reachable : ∀ {c : Column}, c.Obtained → c.Reachable
  | _, .assembled each made => .assembled (fun child mem => (each child mem).reachable) made
  | _, .empty t => .empty t
  | _, .fixed made => .fixed made
  | _, .boolean made => .boolean made
  | _, .varying made => .varying made
  | _, .sliced h cut => h.reachable.sliced cut
  | _, .child h mem => h.reachable.child mem
  | _, .column h mem => h.reachable.column _ mem

theorem Batch.Obtained.reachable : ∀ {b : Batch}, b.Obtained → b.Reachable
  | _, .assembled each made => Batch.reachable_of_assemble (fun c mem => (each c mem).reachable) made
  | _, .assembledWith each word made => .assembled (fun c mem => (each c mem).reachable) word made
  | _, .decoded made => Batch.reachable_of_decode made
  | _, .sliced h cut => h.reachable.sliced cut

end

/-! ## The invariant -/

/-- Every column that can be obtained keeps the invariant of columns. Every batch has a column for each field of its
schema, of the field's type, with as many elements as the batch has rows, and without nulls unless the field
admits them. -/
theorem invariant_of_obtained :
    (∀ c : Column, c.Obtained → c.Invariant) ∧
      ∀ b : Batch, b.Obtained → List.Forall₂ (Batch.Obeys b.numRows) b.schema.fields b.columns :=
  ⟨fun _ h => h.reachable.sound.invariant, fun _ h => h.reachable.sound.obeys⟩

/-- Two lists are decoded, and the second row is cut out of the batch. -/
theorem invariant_of_decoded_lists :
    (Batch.lists.part 1 1).Invariant ∧ Batch.items.Invariant ∧
      List.Forall₂ (Batch.Obeys 1) Batch.secondList.schema.fields Batch.secondList.columns := by
  have read : Batch.decode Batch.secondList.schema [1, 2, 24, 2, 2, 2, 0, 3, 0, 4, 0, 0, 0, 12, 16, 0, 16, 3]
      #[0, 0, 0, 0, 1, 0, 0, 0, 3, 0, 0, 0, 0, 0, 0, 0, 1, 2, 3, 0, 0, 0, 0, 0] =
      .ok ⟨Batch.secondList.schema, 2, [Batch.lists]⟩ := by rfl
  have batch : Batch.secondList.Obtained := (Batch.Obtained.decoded read).sliced Batch.slice_bothLists
  have column : (Batch.lists.part 1 1).Obtained := .column batch (List.mem_singleton.2 rfl)
  have below : Batch.items.Obtained := column.child (List.mem_singleton.2 rfl)
  obtain ⟨columns, batches⟩ := invariant_of_obtained
  exact ⟨columns _ column, columns _ below, batches _ batch⟩

end ColumnStream
