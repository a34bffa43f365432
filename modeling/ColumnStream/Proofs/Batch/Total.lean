/-
Decoding whatever bytes there are. A walk `Brings` what it looks for if it finds it, or ends for a cause in the
message, from wherever it stands in the tables. Every region is held against the body before it is cut out, and
every column is checked, so that decoding any metadata and any body against any schema ends in an answer, and
what it brings are batches like those that are built.
-/
import ColumnStream.Batch.Decode
import ColumnStream.Proofs.Batch.Reachable
import ColumnStream.Proofs.Column.Total
import ColumnStream.Proofs.Metadata.Parsing

namespace ColumnStream

/-! ## The walk -/

namespace Walk

variable {α β : Type} {post : α → Prop} {post' : β → Prop}

/-- From any tables the walk finds something for which `post` holds, or ends for a cause in the message. -/
def Brings (post : α → Prop) (w : Walk α) : Prop :=
  ∀ tables, Answers Error.OfMessage (fun found => post found.1) (w tables)

theorem Brings.pure {a : α} (h : post a) : Brings post (pure a) := fun _ => h

theorem Brings.bind {w : Walk α} {f : α → Walk β} (h : Brings post w) (next : ∀ a, post a → Brings post' (f a)) :
    Brings post' (w >>= f) :=
  fun tables => (h tables).bind fun found _ holds => next found.1 holds found.2

theorem brings_node : Brings (fun _ => True) node := by
  intro tables
  unfold node
  split <;> trivial

theorem brings_region : Brings (fun _ => True) region := by
  intro tables
  unfold region
  split <;> trivial

/-- A region is cut out only where it lies inside the body. -/
theorem answers_cut (body : Buffer) (t : DataType) (n : Node) (role : Role) (index : Nat) (r : Region) :
    Answers Error.OfMessage (fun _ => True) (cut body t n role index r) := by
  unfold cut
  split
  · trivial
  · rename_i within
    have bytes : body.slice r.offset r.length = .ok (body.extract r.offset (r.offset + r.length)) :=
      Buffer.slice_eq_ok (by omega)
    rw [bytes]
    split
    · trivial
    · simp only
      split <;> trivial

theorem brings_buffers (body : Buffer) (t : DataType) (n : Node) (roles : List Role) :
    Brings (fun _ => True) (buffers body t n roles) := by
  induction roles with
  | nil => exact .pure trivial
  | cons role roles ih =>
    have first : Brings (fun _ => True) (buffer body t n role) := by
      refine brings_region.bind fun (index, r) _ tables => ?_
      exact (answers_cut body t n role index r).bind fun _ _ _ => trivial
    exact first.bind fun _ _ => ih.bind fun _ _ => .pure trivial

/-! ### Columns -/

theorem brings_columnWith (body : Buffer) (t : DataType) {children : Walk (List Column)}
    (below : Brings (fun columns => ∀ c ∈ columns, c.Reachable) children) :
    Brings Column.Reachable (columnWith body t children) := by
  refine brings_node.bind fun n _ => (brings_buffers body t n t.roles).bind fun own _ =>
    below.bind fun columns each tables => ?_
  have small : 0 + 8 < wordSize := by decide
  have checked : Answers Error.OfColumn _ (Column.assemble t n.length n.nullCount 0 own columns) :=
    Column.answers_assemble fun _ _ _ => small
  exact (checked.widen fun _ => Error.OfColumn.ofMessage).bind fun c made _ => Column.Reachable.assembled each made

theorem brings_columns {body : Buffer} {fields : List Field}
    (each : ∀ f ∈ fields, Brings Column.Reachable (column body f.type)) :
    Brings (fun columns => ∀ c ∈ columns, c.Reachable) (columns body fields) := by
  induction fields with
  | nil => exact .pure (by simp)
  | cons f fields ih =>
    obtain ⟨name, t, nullable⟩ := f
    refine (each _ (List.mem_cons_self ..)).bind fun c reachable =>
      (ih fun g hg => each g (List.mem_cons_of_mem _ hg)).bind fun columns others => ?_
    exact .pure (List.forall_mem_cons.2 ⟨reachable, others⟩)

/-- The column of any type. Those below it were checked before it is. -/
theorem brings_column (body : Buffer) (t : DataType) : Brings Column.Reachable (column body t) := by
  induction t using DataType.inductChildren with
  | step t ih =>
    rw [column_eq]
    exact brings_columnWith body t (brings_columns ih)

end Walk

/-! ## Metadata of either kind -/

theorem Metadata.answers_decode (input : Bytes) :
    Answers (fun cause => cause.Malformed ∨ cause.Corrupt) (fun _ => True) (decode input) := by
  rcases decode_cases input with ⟨m, read, -⟩ | ⟨-, cause, failed, blamed⟩ | ⟨-, cause, failed, blamed⟩
  · exact .of_ok read trivial
  · exact .of_fail failed (.inl blamed)
  · exact .of_fail failed (.inr blamed)

theorem Metadata.decode_ofMessage (input : Bytes) : Answers Error.OfMessage (fun _ => True) (decode input) :=
  (answers_decode input).widen fun _ blamed => blamed.elim Error.Malformed.ofMessage Error.Corrupt.ofMessage

theorem Schema.answers_decode (input : Bytes) :
    Answers (fun cause => cause.Malformed ∨ cause.Corrupt) (fun _ => True) (decode input) := by
  refine (Metadata.answers_decode input).bind fun m _ _ => ?_
  split
  · trivial
  · exact .inr ⟨_, rfl⟩

/-! ## Batches -/

namespace Batch

theorem answers_checkColumn (rows : Nat) (c : Column) (f : Field) :
    Answers Error.OfBatch (fun _ => True) (checkColumn rows c f) := by
  unfold checkColumn
  split
  · trivial
  · split
    · trivial
    · split <;> trivial

theorem answers_checkColumns (rows : Nat) (columns : List Column) (fields : List Field) :
    Answers Error.OfBatch (fun _ => True) (checkColumns rows columns fields) := by
  fun_induction checkColumns rows columns fields with
  | case1 c columns f fields ih => exact (answers_checkColumn rows c f).bind fun _ _ _ => ih
  | case2 => trivial

theorem answers_assembleWith (schema : Schema) (columns : List Column) (rows : Nat) :
    Answers Error.OfBatch (fun _ => True) (assembleWith schema columns rows) := by
  unfold assembleWith
  split
  · trivial
  · exact (answers_checkColumns ..).bind fun _ _ _ => trivial

theorem answers_ofHeader (schema : Schema) {header : BatchHeader} (word : header.numRows < wordSize) (body : Buffer) :
    Answers Error.OfMessage Reachable (ofHeader schema header body) := by
  unfold ofHeader
  split
  · trivial
  · split
    · trivial
    · refine (Walk.brings_columns (fun f _ => Walk.brings_column body f.type) _).bind fun (columns, _) _ each => ?_
      refine (answers_assembleWith schema columns _).widen (fun _ => Error.OfBatch.ofMessage) |>.mono fun b made _ => ?_
      exact .assembled each word made

theorem answers_decode (schema : Schema) (metadata : Bytes) (body : Buffer) :
    Answers Error.OfMessage Reachable (decode schema metadata body) := by
  refine (Metadata.decode_ofMessage metadata).bind fun m read _ => ?_
  split
  · rename_i header batch
    exact answers_ofHeader schema (Metadata.numRows_lt read batch) body
  · trivial

/-- Decoding ends with a result or an error, whatever the schema, the metadata and the body. Metadata is refused
for its schema where it opens as a schema message, and otherwise as a corrupt stream; a schema is refused for
one of the two, and a batch for a cause in the message. -/
theorem decode_hostile (schema : Schema) (metadata : Bytes) (body : Buffer) :
    ((∃ m, Metadata.decode metadata = .ok m ∧ Metadata.Opens m.header.kind metadata) ∨
      (Metadata.Opens .schema metadata ∧ ∃ cause, Metadata.decode metadata = fail cause ∧ cause.Malformed) ∨
      (¬ Metadata.Opens .schema metadata ∧ ∃ cause, Metadata.decode metadata = fail cause ∧ cause.Corrupt)) ∧
    Answers (fun cause => cause.Malformed ∨ cause.Corrupt) (fun _ => True) (Schema.decode metadata) ∧
    Answers Error.OfMessage (fun _ => True) (decode schema metadata body) :=
  ⟨Metadata.decode_cases metadata, Schema.answers_decode metadata,
    (answers_decode schema metadata body).mono fun _ _ _ => trivial⟩

end Batch

end ColumnStream
