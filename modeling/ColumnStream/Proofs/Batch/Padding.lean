/-
Padding and spare bits of a body. Two bodies of one length that agree in all that the columns of a batch cover are
decoded in lockstep: the walks take the same entries off the tables, the checks give the same verdicts, and either both
bodies are refused for the same cause, or the batches they bring are equal.
-/
import ColumnStream.Proofs.Batch.Tables
import ColumnStream.Proofs.Column.Equality
import ColumnStream.Proofs.Column.Padding

namespace ColumnStream

/-! ## Two bodies under the same tables -/

section

variable {body body' : Buffer}

theorem Region.size_bytesIn (same : body'.size = body.size) (r : Region) :
    (r.bytesIn body').size = (r.bytesIn body).size := by
  rw [bytesIn, bytesIn, Array.size_extract, Array.size_extract, same]

namespace Column

theorem map_shape_assignedAll (fields : List Field) (nodes : List Node) (regions : List Region) :
    (assignedAll body' fields nodes regions).map (fun e => (e.type, e.length)) =
      (assignedAll body fields nodes regions).map fun e => (e.type, e.length) := by
  induction fields generalizing nodes regions with
  | nil => rfl
  | cons f fields ih =>
    rw [assignedAll_cons, assignedAll_cons, List.map_cons, List.map_cons, ih, assigned_eq, assigned_eq]
    rfl

theorem Agree.twins (same : body'.size = body.size) {t : DataType} {nodes : List Node} {regions : List Region}
    (agree : (assigned body t nodes regions).Agree (assigned body' t nodes regions)) :
    Twins (assigned body t nodes regions) (assigned body' t nodes regions) := by
  rw [assigned_eq, assigned_eq] at agree ⊢
  refine ⟨rfl, rfl, rfl, ⟨rfl, rfl⟩, ?_, map_shape_assignedAll .., agree⟩
  show ((regions.take t.roles.length).map _).map _ = ((regions.take t.roles.length).map _).map _
  rw [List.map_map, List.map_map]
  exact List.map_congr_left fun r _ => r.size_bytesIn same

theorem twins_assignedAll {fields : List Field} {nodes : List Node} {regions : List Region}
    (each : ∀ f ∈ fields, ∀ nodes regions,
      Throughout Agree (assigned body f.type nodes regions) (assigned body' f.type nodes regions) →
        Throughout Twins (assigned body f.type nodes regions) (assigned body' f.type nodes regions))
    (agree : List.Forall₂ (Throughout Agree) (assignedAll body fields nodes regions)
      (assignedAll body' fields nodes regions)) :
    List.Forall₂ (Throughout Twins) (assignedAll body fields nodes regions)
      (assignedAll body' fields nodes regions) := by
  induction fields generalizing nodes regions with
  | nil => exact .nil
  | cons f fields ih =>
    obtain ⟨own, others⟩ := List.forall_mem_cons.1 each
    rw [assignedAll_cons, assignedAll_cons] at agree ⊢
    obtain ⟨first, rest⟩ := List.forall₂_cons.1 agree
    exact .cons (own _ _ first) (ih others rest)

theorem twins_assigned (same : body'.size = body.size) (t : DataType) : ∀ nodes regions,
    Throughout Agree (assigned body t nodes regions) (assigned body' t nodes regions) →
      Throughout Twins (assigned body t nodes regions) (assigned body' t nodes regions) := by
  induction t using DataType.inductChildren with
  | step t ih =>
    intro nodes regions agree
    have here := agree.here.twins same
    have below := agree.children
    rw [assigned_eq, assigned_eq] at here below ⊢
    exact .of_children here (twins_assignedAll ih below)

/-! ### Bitmaps inside a body -/

theorem mem_assignedAll {c : Column} {fields : List Field} {nodes : List Node} {regions : List Region}
    (mem : c ∈ assignedAll body fields nodes regions) :
    ∃ f ∈ fields, ∃ nodes regions, c = assigned body f.type nodes regions := by
  induction fields generalizing nodes regions with
  | nil => simp [assignedAll] at mem
  | cons f fields ih =>
    rcases List.mem_cons.1 mem with rfl | mem
    · exact ⟨f, List.mem_cons_self .., nodes, regions, rfl⟩
    · obtain ⟨g, hg, found⟩ := ih mem
      exact ⟨g, List.mem_cons_of_mem _ hg, found⟩

theorem addressable_assigned (small : 8 * body.size + 8 < wordSize) (t : DataType) :
    ∀ nodes regions, (assigned body t nodes regions).Addressable := by
  induction t using DataType.inductChildren with
  | step t ih =>
    intro nodes regions
    rw [assigned_eq]
    refine .intro (fun bitmap found => ?_) fun child mem => ?_
    · obtain ⟨r, -, rfl⟩ := List.mem_map.1 (validity?_mem found)
      rw [Region.bytesIn, Array.size_extract]
      omega
    · obtain ⟨f, hf, nodes', regions', rfl⟩ := mem_assignedAll mem
      exact ih f hf _ _

end Column

/-! ## Walks in lockstep -/

namespace Walk

/-- The same tables are left. -/
def SameLeft {α : Type} (found found' : α × Tables) : Prop := found'.2 = found.2

theorem inStep_cut (same : body'.size = body.size) (t : DataType) (n : Node) (role : Role) (index : Nat) (r : Region) :
    InStep (fun _ _ => True) (cut body t n role index r) (cut body' t n role index r) := by
  unfold cut
  rw [same]
  split
  · rfl
  · rename_i within
    rw [Buffer.slice_eq_ok (b := body) (by omega), Buffer.slice_eq_ok (b := body') (by omega)]
    split
    · trivial
    · simp only
      split
      · rfl
      · trivial

/-- Which buffers are cut out depends on the tables and on the length of the body alone. -/
theorem inStep_buffers (same : body'.size = body.size) (t : DataType) (n : Node) (roles : List Role) (tables : Tables) :
    InStep SameLeft (buffers body t n roles tables) (buffers body' t n roles tables) := by
  induction roles generalizing tables with
  | nil => rfl
  | cons role roles ih =>
    have first : InStep SameLeft (buffer body t n role tables) (buffer body' t n role tables) := by
      refine (InStep.refl _).bind fun taken _ _ _ eq => ?_
      subst eq
      exact (inStep_cut same t n role taken.1.1 taken.1.2).bind fun _ _ _ _ _ => rfl
    refine first.bind fun found found' _ _ left => ?_
    have rest : InStep SameLeft (buffers body t n roles found.2) (buffers body' t n roles found'.2) := left ▸ ih found.2
    exact rest.bind fun _ _ _ _ left => left

/-- Where columns of that type agree in all that they cover, the walks over them end alike. -/
def Lockstep (body body' : Buffer) (t : DataType) : Prop :=
  ∀ tables, Column.Throughout Column.Agree (Column.assigned body t tables.nodes tables.regions)
      (Column.assigned body' t tables.nodes tables.regions) →
    InStep SameLeft (column body t tables) (column body' t tables)

theorem inStep_columns {fields : List Field} (each : ∀ f ∈ fields, Lockstep body body' f.type) {tables : Tables}
    (agree : List.Forall₂ (Column.Throughout Column.Agree)
      (Column.assignedAll body fields tables.nodes tables.regions)
      (Column.assignedAll body' fields tables.nodes tables.regions)) :
    InStep SameLeft (columns body fields tables) (columns body' fields tables) := by
  induction fields generalizing tables with
  | nil => rfl
  | cons f fields ih =>
    obtain ⟨own, others⟩ := List.forall_mem_cons.1 each
    rw [Column.assignedAll_cons, Column.assignedAll_cons] at agree
    obtain ⟨first, rest⟩ := List.forall₂_cons.1 agree
    refine (own tables first).bind fun (c, between) (c', between') ran _ left => ?_
    cases left
    obtain ⟨-, took⟩ := follows body f.type _ _ _ ran
    rw [← took.nodes, ← took.regions] at rest
    exact (ih others rest).bind fun _ _ _ _ left => left

theorem lockstep (same : body'.size = body.size) (t : DataType) : Lockstep body body' t := by
  induction t using DataType.inductChildren with
  | step t ih =>
    intro tables agree
    rw [column_eq, column_eq]
    refine (InStep.refl _).bind fun (n, afterNode) _ read _ eq => ?_
    subst eq
    obtain ⟨nodes, regions, count⟩ := tables
    cases nodes with
    | nil => cases read
    | cons _ nodes =>
      cases read
      have twins := agree.here.twins same
      have below := agree.children
      rw [Column.assigned_eq, Column.assigned_eq] at twins below
      refine (inStep_buffers same t n t.roles _).bind fun (own, afterOwn) (own', afterOwn') ran ran' left => ?_
      cases left
      obtain ⟨rfl, took⟩ := buffers_ok ran
      obtain ⟨rfl, -⟩ := buffers_ok ran'
      have walked : InStep SameLeft (columns body t.children afterOwn) (columns body' t.children afterOwn) := by
        refine inStep_columns ih ?_
        rw [took.nodes, took.regions]
        exact below
      refine walked.bind fun (children, left) (children', left') ran ran' eq => ?_
      cases eq
      obtain ⟨rfl, -⟩ := columns_ok (fun f _ => follows body f.type) ran
      obtain ⟨rfl, -⟩ := columns_ok (fun f _ => follows body' f.type) ran'
      -- Up to its check, either walk has found the column that the tables assign.
      rw [took.nodes, took.regions]
      exact (Column.inStep_assemble twins).bind fun _ _ _ _ _ => rfl

end Walk

end

/-! ## Batches -/

namespace Batch

theorem checkColumns_congr {cs ds : List Column} (rows : Nat) (fields : List Field)
    (same : List.Forall₂ (fun c d => d.type = c.type ∧ d.length = c.length ∧ d.nullCount = c.nullCount) cs ds) :
    checkColumns rows ds fields = checkColumns rows cs fields := by
  induction same generalizing fields with
  | nil => rfl
  | @cons c d cs ds first _ ih =>
    obtain ⟨type, length, nulls⟩ := first
    cases fields with
    | nil => rfl
    | cons f fields => rw [checkColumns, checkColumns, checkColumn, checkColumn, type, length, nulls, ih]

variable {schema : Schema} {header : BatchHeader} {body body' : Buffer}

/-- The bodies agree in all that the columns cover which the tables assign, on every level. Nothing is asked where the
tables have more or fewer entries than a batch of the schema. -/
def AgreeOn (schema : Schema) (header : BatchHeader) (body body' : Buffer) : Prop :=
  header.nodes.length = schema.nodeCount → header.regions.length = schema.bufferCount →
    List.Forall₂ (Column.Throughout Column.Agree) (assigned schema header body).columns
      (assigned schema header body').columns

theorem inStep_ofHeader (same : body'.size = body.size) (agree : AgreeOn schema header body body') :
    InStep (fun b b' => b = assigned schema header body ∧ b' = assigned schema header body' ∧
        List.Forall₂ (Column.Throughout Column.Twins) b.columns b'.columns)
      (ofHeader schema header body) (ofHeader schema header body') := by
  unfold ofHeader
  split
  · rfl
  split
  · rfl
  rename_i nodes regions
  have agree := agree (not_not.1 nodes) (not_not.1 regions)
  have walked : InStep Walk.SameLeft (Walk.columns body schema.fields ⟨header.nodes, header.regions, 0⟩)
      (Walk.columns body' schema.fields ⟨header.nodes, header.regions, 0⟩) :=
    Walk.inStep_columns (fun f _ => Walk.lockstep same f.type) agree
  refine walked.bind fun (columns, left) (columns', left') ran ran' _ => ?_
  obtain ⟨rfl, -⟩ := Walk.columns_ok (fun f _ => Walk.follows body f.type) ran
  obtain ⟨rfl, -⟩ := Walk.columns_ok (fun f _ => Walk.follows body' f.type) ran'
  have twins := Column.twins_assignedAll (fun f _ => Column.twins_assigned same f.type) agree
  have alike := checkColumns_congr header.numRows schema.fields
    (twins.imp fun _ _ h => ⟨h.here.type, h.here.length, h.here.nullCount⟩)
  unfold assembleWith
  simp only [← twins.length_eq]
  split
  · rfl
  · rw [alike]
    exact (InStep.refl _).bind fun _ _ _ _ _ => ⟨rfl, rfl, twins⟩

theorem sound_of_ofHeader {b : Batch} (rows : header.numRows < wordSize) (ran : ofHeader schema header body = .ok b) :
    b.Sound :=
  ((answers_ofHeader schema rows body).holds ran).sound

theorem addressable_assigned (small : 8 * body.size + 8 < wordSize) :
    ∀ c ∈ (assigned schema header body).columns, c.Addressable := by
  intro c mem
  obtain ⟨f, -, nodes, regions, rfl⟩ := Column.mem_assignedAll mem
  exact Column.addressable_assigned small f.type nodes regions

/-- What no column covers is not seen by the decoder: bytes between the buffers and after the least length of each, and
bits past the last element. Two bodies of one length that agree in everything else are refused for the same cause, or
both bring a batch, and the batches are equal. Of the bodies it is only asked that a memory holds them: the last bit of
each, and a byte more, has a position that is a machine word. -/
theorem ofHeader_ignores_padding (same : body'.size = body.size) (small : 8 * body.size + 8 < wordSize)
    (rows : header.numRows < wordSize) (agree : AgreeOn schema header body body') :
    (∃ cause, ofHeader schema header body = fail cause ∧ ofHeader schema header body' = fail cause) ∨
      ∃ b b', ofHeader schema header body = .ok b ∧ ofHeader schema header body' = .ok b' ∧ b.equal b' = .ok true := by
  rcases (inStep_ofHeader same agree).cases with ⟨e, ran, ran'⟩ | ⟨b, b', ran, ran', eq, eq', twins⟩
  · left
    rcases (answers_ofHeader schema rows body).cases with ⟨b, made, -⟩ | ⟨cause, failed, -⟩
    · cases ran.symm.trans made
    · exact ⟨cause, failed, ran'.trans (ran.symm.trans failed)⟩
  · right
    have sound := (sound_of_ofHeader rows ran).sound
    have sound' := (sound_of_ofHeader rows ran').sound
    have cells : List.Forall₂ (fun c d => c.type = d.type ∧ c.cells = d.cells) b.columns b'.columns := by
      obtain ⟨count, each⟩ := List.forall₂_iff_zip.1 twins
      refine List.forall₂_iff_zip.2 ⟨count, fun {c d} mem => ?_⟩
      have twins := each mem
      exact ⟨twins.here.type.symm, (twins.cells_eq (sound c (List.of_mem_zip mem).1)).symm⟩
    refine ⟨b, b', ran, ran', ?_⟩
    rw [equal, if_pos (by rw [eq, eq']; exact ⟨rfl, rfl⟩)]
    exact equalColumns_of_cells cells sound sound' (eq ▸ addressable_assigned small)
      (eq' ▸ addressable_assigned (same ▸ small))

/-- Three flags, the second of which is null, with a byte more than needed for the bitmap. -/
def flagsSchema : Schema := ⟨[⟨"flag", .boolean, true⟩]⟩

def flagsHeader : BatchHeader := ⟨3, [⟨3, 1⟩], [⟨0, 2⟩, ⟨8, 1⟩]⟩

def flagsBody : Buffer := #[0x05, 0, 0, 0, 0, 0, 0, 0, 0x01, 0, 0, 0, 0, 0, 0, 0]

/-- The same flags, with every spare bit and every byte of padding set. -/
def noisyBody : Buffer :=
  #[0xFD, 0xFF, 0xFF, 0xFF, 0xFF, 0xFF, 0xFF, 0xFF, 0xF9, 0xFF, 0xFF, 0xFF, 0xFF, 0xFF, 0xFF, 0xFF]

theorem ofHeader_ignores_padding_flags : AgreeOn flagsSchema flagsHeader flagsBody noisyBody ∧
    ∃ b b', ofHeader flagsSchema flagsHeader flagsBody = .ok b ∧ ofHeader flagsSchema flagsHeader noisyBody = .ok b' ∧
      b.equal b' = .ok true := by
  have agree : AgreeOn flagsSchema flagsHeader flagsBody noisyBody := by
    intro _ _
    refine .cons (.of_children ⟨by decide, fun mem => ?_, fun _ => by decide, fun _ type => ?_, fun type => ?_⟩ .nil)
      .nil
    · exact absurd mem (by decide)
    · cases type
    · rcases type with type | type <;> cases type
  have made : (ofHeader flagsSchema flagsHeader flagsBody).toOption.isSome = true := by rfl
  refine ⟨agree, ?_⟩
  rcases ofHeader_ignores_padding (by decide) (by decide) (by decide) agree with ⟨cause, failed, -⟩ | found
  · rw [failed] at made
    cases made
  · exact found

end Batch

end ColumnStream
