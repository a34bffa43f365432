/-
The batches there can be: columns assembled under a schema, or the rows of another batch. In all of
them each column is sound and agrees with its field, which is all that the encoder asks for.
-/
import ColumnStream.Batch.Basic
import ColumnStream.Proofs.Column.Reachable

namespace ColumnStream.Batch

/-- A batch that the constructors and slicing can bring about. The number of rows is a machine word. -/
inductive Reachable : Batch → Prop
  | assembled {schema : Schema} {columns : List Column} {rows : Nat} {b : Batch} :
      (∀ c ∈ columns, c.Reachable) → rows < wordSize → assembleWith schema columns rows = .ok b → Reachable b
  | sliced {b b' : Batch} {start count : Nat} : Reachable b → b.slice start count = .ok b' → Reachable b'

/-! ## Columns under their fields -/

/-- The column has its field's type, as many elements as there are rows, and no nulls unless the field
admits them. -/
structure Obeys (rows : Nat) (f : Field) (c : Column) : Prop where
  type : c.type = f.type
  length : c.length = rows
  nulls : f.nullable = false → c.nullCount = 0

structure Sound (b : Batch) : Prop where
  obeys : List.Forall₂ (Obeys b.numRows) b.schema.fields b.columns
  sound : ∀ c ∈ b.columns, c.Sound
  word : b.numRows < wordSize

theorem checkColumn_eq_ok {rows : Nat} {c : Column} {f : Field} :
    checkColumn rows c f = .ok () ↔ Obeys rows f c := by
  unfold checkColumn
  split
  · rename_i other
    exact ⟨fun h => (nomatch h), fun h => absurd h.type other⟩
  · split
    · rename_i other
      exact ⟨fun h => (nomatch h), fun h => absurd h.length other⟩
    · split
      · rename_i nulls
        exact ⟨fun h => (nomatch h), fun h => by have := h.nulls nulls.1; omega⟩
      · rename_i type length nulls
        exact ⟨fun _ => ⟨by simpa using type, by simpa using length, fun required => by
          by_contra some
          exact nulls ⟨required, by omega⟩⟩, fun _ => rfl⟩

theorem checkColumns_eq_ok {rows : Nat} {columns : List Column} {fields : List Field}
    (length : columns.length = fields.length) :
    checkColumns rows columns fields = .ok () ↔ List.Forall₂ (Obeys rows) fields columns := by
  induction columns generalizing fields with
  | nil =>
    cases fields with
    | nil => simp [checkColumns]
    | cons _ _ => simp at length
  | cons c columns ih =>
    cases fields with
    | nil => simp at length
    | cons f fields =>
      rw [checkColumns, bind_eq_ok, List.forall₂_cons]
      constructor
      · rintro ⟨⟨⟩, first, rest⟩
        exact ⟨checkColumn_eq_ok.1 first, (ih (by simpa using length)).1 rest⟩
      · rintro ⟨first, rest⟩
        exact ⟨(), checkColumn_eq_ok.2 first, (ih (by simpa using length)).2 rest⟩

/-- A batch is made of just those columns that obey its fields. -/
theorem assembleWith_eq_ok {schema : Schema} {columns : List Column} {rows : Nat} {b : Batch} :
    assembleWith schema columns rows = .ok b ↔
      b = ⟨schema, rows, columns⟩ ∧ List.Forall₂ (Obeys rows) schema.fields columns := by
  unfold assembleWith
  split
  · rename_i other
    exact ⟨fun h => (nomatch h), fun h => absurd h.2.length_eq.symm other⟩
  · rename_i length
    rw [bind_eq_ok]
    constructor
    · rintro ⟨⟨⟩, checked, h⟩
      cases h
      exact ⟨rfl, (checkColumns_eq_ok (by simpa using length)).1 checked⟩
    · rintro ⟨rfl, obeys⟩
      exact ⟨(), (checkColumns_eq_ok (by simpa using length)).2 obeys, rfl⟩

/-! ## Rows of a batch -/

theorem Obeys.slice {rows start count : Nat} {f : Field} {c d : Column} (h : Obeys rows f c) (wf : c.WellFormed)
    (cut : c.slice start count = .ok d) : Obeys count f d := by
  obtain ⟨rfl, inside, -⟩ := Column.slice_ok cut
  refine ⟨h.type, rfl, fun required => ?_⟩
  have none := h.nulls required
  show (List.range count).countP _ = 0
  rw [List.countP_eq_zero]
  intro i hi
  have := List.mem_range.1 hi
  simp [wf.counted.present_of_none none (show start + i < c.length by omega)]

theorem slices_obey {fields : List Field} {columns parts : List Column} {rows start count : Nat}
    (obeys : List.Forall₂ (Obeys rows) fields columns) (sound : ∀ c ∈ columns, c.Sound)
    (cut : columns.mapM (fun c => c.slice start count) = .ok parts) :
    List.Forall₂ (Obeys count) fields parts ∧ ∀ d ∈ parts, d.Sound := by
  induction obeys generalizing parts with
  | nil =>
    cases cut
    exact ⟨.nil, by simp⟩
  | @cons f c fields columns first _ ih =>
    rw [List.mapM_cons] at cut
    obtain ⟨d, hd, cut⟩ := bind_eq_ok.1 cut
    obtain ⟨parts, hparts, cut⟩ := bind_eq_ok.1 cut
    cases cut
    have own : c.Sound := sound c (List.mem_cons_self ..)
    obtain ⟨rest, below⟩ := ih (fun c hc => sound c (List.mem_cons_of_mem _ hc)) hparts
    exact ⟨.cons (first.slice own.here hd) rest, List.forall_mem_cons.2 ⟨own.slice hd, below⟩⟩

theorem Sound.slice {b b' : Batch} {start count : Nat} (h : b.Sound) (cut : b.slice start count = .ok b') :
    b'.Sound := by
  obtain ⟨stop, hstop, cut⟩ := bind_eq_ok.1 cut
  obtain ⟨-, word⟩ := Word.add_ok hstop
  split at cut
  · obtain ⟨parts, hparts, cut⟩ := bind_eq_ok.1 cut
    cases cut
    obtain ⟨obeys, below⟩ := slices_obey h.obeys h.sound hparts
    exact ⟨obeys, below, by show count < wordSize; omega⟩
  · cases cut

theorem Reachable.sound {b : Batch} (h : Reachable b) : b.Sound := by
  induction h with
  | assembled each word made =>
    obtain ⟨rfl, obeys⟩ := assembleWith_eq_ok.1 made
    exact ⟨obeys, fun c hc => (each c hc).sound, word⟩
  | sliced _ cut ih => exact ih.slice cut

end ColumnStream.Batch
