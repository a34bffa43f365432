/-
Tables against a schema. Node by node and region by region, in the order of the walk, the tables of a header assign a
column to each field, whatever the bytes are. The decoder brings just these columns, if every region lies inside the
body and every column can be read, and nothing otherwise.
-/
import ColumnStream.Proofs.Batch.Invariant
import ColumnStream.Proofs.Column.Fits

namespace ColumnStream

theorem DataType.nodeCounts_cons (f : Field) (fields : List Field) :
    nodeCounts (f :: fields) = f.type.nodeCount + nodeCounts fields := rfl

theorem DataType.bufferCounts_cons (f : Field) (fields : List Field) :
    bufferCounts (f :: fields) = f.type.bufferCount + bufferCounts fields := rfl

/-! ## What the tables assign -/

namespace Region

def Inside (body : Buffer) (r : Region) : Prop := r.offset + r.length ≤ body.size

/-- The bytes of the region, as far as there are any. -/
def bytesIn (body : Buffer) (r : Region) : Buffer := body.extract r.offset (r.offset + r.length)

theorem Inside.covers {body : Buffer} {r : Region} (h : r.Inside body) (word : body.size < wordSize) :
    r.Covers body (r.bytesIn body) := by
  unfold Inside at h
  have size : (r.bytesIn body).size = r.length := by
    rw [bytesIn, Array.size_extract]
    omega
  exact ⟨size.symm, by omega, h, rfl⟩

end Region

theorem located_bytesIn {body : Buffer} {regions : List Region} (inside : ∀ r ∈ regions, r.Inside body)
    (word : body.size < wordSize) : Located body regions (regions.map (Region.bytesIn body)) :=
  List.forall₂_map_right_iff.2 (List.forall₂_same.2 fun r hr => (inside r hr).covers word)

namespace Column

/-- The column of the first node and of the regions that its type takes; `below` are the children for what is left
of the tables. -/
def headed (body : Buffer) (t : DataType) (below : List Node → List Region → List Column) (nodes : List Node)
    (regions : List Region) : Column :=
  let n := nodes.headD ⟨0, 0⟩
  ⟨t, n.length, n.nullCount, 0, (regions.take t.roles.length).map (Region.bytesIn body),
    below nodes.tail (regions.drop t.roles.length)⟩

mutual
/-- The column of that type that begins the tables. -/
def assigned (body : Buffer) : DataType → List Node → List Region → Column
  | .list ⟨name, t, nullable⟩ =>
    headed body (.list ⟨name, t, nullable⟩) fun nodes regions => [assigned body t nodes regions]
  | .struct members => headed body (.struct members) (assignedAll body members)
  | t => headed body t fun _ _ => []

/-- A column for each field, one after another. -/
def assignedAll (body : Buffer) : List Field → List Node → List Region → List Column
  | [], _, _ => []
  | ⟨_, t, _⟩ :: fields, nodes, regions =>
    assigned body t nodes regions ::
      assignedAll body fields (nodes.drop t.nodeCount) (regions.drop t.bufferCount)
end

section
variable (body : Buffer)

theorem assigned_eq (t : DataType) : assigned body t = headed body t (assignedAll body t.children) := by
  cases t <;> rfl

theorem assignedAll_cons (f : Field) (fields : List Field) (nodes : List Node) (regions : List Region) :
    assignedAll body (f :: fields) nodes regions = assigned body f.type nodes regions ::
      assignedAll body fields (nodes.drop f.type.nodeCount) (regions.drop f.type.bufferCount) := rfl

theorem assigned_type (t : DataType) (nodes : List Node) (regions : List Region) :
    (assigned body t nodes regions).type = t := by
  rw [assigned_eq]
  rfl

theorem map_type_assignedAll (fields : List Field) (nodes : List Node) (regions : List Region) :
    (assignedAll body fields nodes regions).map (·.type) = fields.map (·.type) := by
  induction fields generalizing nodes regions with
  | nil => rfl
  | cons f fields ih => rw [assignedAll_cons, List.map_cons, List.map_cons, ih, assigned_type]

end

/-- The column that tables assign to the type has, in the order of the walk, the nodes and the bytes of the regions
that are its share of them. -/
def Spells (body : Buffer) (t : DataType) : Prop :=
  ∀ nodes regions, t.nodeCount ≤ nodes.length →
    (assigned body t nodes regions).spread =
      ⟨nodes.take t.nodeCount, (regions.take t.bufferCount).map (Region.bytesIn body)⟩

theorem spread_assignedAll {body : Buffer} {fields : List Field} (each : ∀ f ∈ fields, Spells body f.type)
    {nodes : List Node} (enough : DataType.nodeCounts fields ≤ nodes.length) (regions : List Region) :
    spreadAll (assignedAll body fields nodes regions) = ⟨nodes.take (DataType.nodeCounts fields),
      (regions.take (DataType.bufferCounts fields)).map (Region.bytesIn body)⟩ := by
  induction fields generalizing nodes regions with
  | nil => rfl
  | cons f fields ih =>
    obtain ⟨own, others⟩ := List.forall_mem_cons.1 each
    rw [DataType.nodeCounts_cons] at enough ⊢
    have left : DataType.nodeCounts fields ≤ (nodes.drop f.type.nodeCount).length := by
      rw [List.length_drop]
      omega
    have rest := ih others left (regions.drop f.type.bufferCount)
    rw [assignedAll_cons, spreadAll, own nodes regions (by omega), rest, DataType.bufferCounts_cons, List.take_add,
      List.take_add, List.map_append]
    rfl

theorem spells (body : Buffer) (t : DataType) : Spells body t := by
  induction t using DataType.inductChildren with
  | step t ih =>
    intro nodes regions enough
    rw [DataType.nodeCount_eq] at enough
    cases nodes with
    | nil => simp at enough
    | cons n nodes =>
      have left : DataType.nodeCounts t.children ≤ nodes.length := by
        rw [List.length_cons] at enough
        omega
      have below := spread_assignedAll ih left (regions.drop t.roles.length)
      rw [assigned_eq, spread_eq, DataType.nodeCount_eq, DataType.bufferCount_eq, Nat.add_comm 1, List.take_succ_cons,
        List.take_add, List.map_append]
      show _ ++ spreadAll (assignedAll body t.children nodes _) = _
      rw [below]
      rfl

/-! ## Columns that can be read -/

/-- What is asked of a column that starts at its first position, besides its shape. -/
structure Legible (c : Column) : Prop where
  marked : c.bytesOf .validity = #[] ∧ c.nullCount = 0 ∨ bytesFor c.length ≤ (c.bytesOf .validity).size ∧
    Bitmap.clearIn (c.bytesOf .validity) 0 c.length = c.nullCount
  offsets : .offsets ∈ c.type.roles → c.length ≠ 0 →
    offsetWidth * (c.length + 1) ≤ (c.bytesOf .offsets).size ∧ c.Ascends
  bits : c.type = .boolean → bytesFor c.length ≤ (c.bytesOf .values).size
  words : ∀ p, c.type = .fixed p → c.length * p.width ≤ (c.bytesOf .values).size
  texts : c.type = .utf8 → ∀ i < c.length, c.present i = true → (c.between i).text?.isSome = true
  members : ∀ fields, c.type = .struct fields → ∀ child ∈ c.children, c.length ≤ child.length

/-- The shape of a column that tables assign, with numbers that are machine words. -/
structure Shaped (c : Column) : Prop where
  offset : c.offset = 0
  length : c.length < wordSize
  buffers : c.buffers.length = c.type.roles.length
  held : ∀ role ∈ c.type.roles, (c.bytesOf role).size < wordSize
  children : c.children.map (·.type) = c.type.children.map (·.type)

namespace Shaped

variable {c : Column}

theorem stop_eq (h : c.Shaped) : c.offset + c.length = c.length := by rw [h.offset, Nat.zero_add]

theorem fits (h : c.Shaped) (legible : c.Legible) : c.Fits where
  buffers := h.buffers
  children := h.children
  nulls := by
    rcases legible.marked with ⟨-, none⟩ | ⟨-, counted⟩
    · omega
    · rw [← counted, Bitmap.clearIn_eq]
      exact Nat.sub_le ..
  positions := by
    rw [h.stop_eq]
    exact h.length
  unmarked absent := by
    rcases legible.marked with ⟨-, none⟩ | ⟨size, counted⟩
    · exact none
    · -- An empty bitmap is long enough only for no elements.
      rw [absent, bytesFor_eq, Array.size_empty] at size
      rw [absent, show c.length = 0 by omega] at counted
      exact counted.symm
  long role mem stored := by
    have word := h.held role mem
    rw [h.stop_eq]
    cases role with
    | validity =>
      rcases legible.marked with ⟨absent, -⟩ | ⟨size, -⟩
      · exact absurd absent (stored rfl)
      · exact ⟨_, rfl, size⟩
    | offsets =>
      rw [DataType.leastLength?]
      split
      · exact ⟨0, rfl, Nat.zero_le _⟩
      · rename_i some
        have size := (legible.offsets mem some).1
        exact ⟨_, fitting?_eq_some.2 ⟨by omega, rfl⟩, size⟩
    | values =>
      cases type : c.type with
      | boolean => exact ⟨_, rfl, legible.bits type⟩
      | fixed p =>
        have size := legible.words p type
        exact ⟨_, fitting?_eq_some.2 ⟨by omega, rfl⟩, size⟩
      | _ => exact ⟨0, rfl, Nat.zero_le _⟩
  marked stored := by
    rcases legible.marked with ⟨absent, -⟩ | ⟨-, counted⟩
    · exact absurd absent stored
    · rwa [h.offset]
  offsets mem some := (legible.offsets mem some).2
  texts := legible.texts
  members := by
    rw [h.stop_eq]
    exact legible.members

theorem legible (h : c.Shaped) (fits : c.Fits) : c.Legible where
  marked := by
    by_cases absent : c.bytesOf .validity = #[]
    · exact .inl ⟨absent, fits.unmarked absent⟩
    · obtain ⟨least, enough, size⟩ := fits.long .validity (roles_validity _) fun _ => absent
      have counted := fits.marked absent
      cases enough
      rw [h.stop_eq] at size
      rw [h.offset] at counted
      exact .inr ⟨size, counted⟩
  offsets mem some := by
    obtain ⟨least, enough, size⟩ := fits.long .offsets mem (by simp)
    rw [h.stop_eq, DataType.leastLength?, if_neg some, fitting?_eq_some] at enough
    exact ⟨enough.2 ▸ size, fits.offsets mem some⟩
  bits type := by
    obtain ⟨least, enough, size⟩ := fits.long .values (by simp [type, DataType.roles]) (by simp)
    rw [h.stop_eq, type] at enough
    cases enough
    exact size
  words p type := by
    obtain ⟨least, enough, size⟩ := fits.long .values (by simp [type, DataType.roles]) (by simp)
    rw [h.stop_eq, type, DataType.leastLength?, fitting?_eq_some] at enough
    exact enough.2 ▸ size
  texts := fits.texts
  members := h.stop_eq ▸ fits.members

theorem wellFormed_iff (h : c.Shaped) : c.WellFormed ↔ c.Legible := by
  have step : 0 + 8 < wordSize := by decide
  rw [wellFormed_iff_fits fun _ _ _ => by rw [h.offset]; exact step]
  exact ⟨h.legible, h.fits⟩

end Shaped

theorem shaped_assignedAll {body : Buffer} {fields : List Field} {nodes : List Node} {regions : List Region}
    (each : ∀ f ∈ fields, ∀ nodes regions, f.type.bufferCount ≤ regions.length → (∀ n ∈ nodes, n.length < wordSize) →
      Everywhere Shaped (assigned body f.type nodes regions))
    (enough : DataType.bufferCounts fields ≤ regions.length) (words : ∀ n ∈ nodes, n.length < wordSize) :
    ∀ c ∈ assignedAll body fields nodes regions, Everywhere Shaped c := by
  induction fields generalizing nodes regions with
  | nil => simp [assignedAll]
  | cons f fields ih =>
    obtain ⟨own, others⟩ := List.forall_mem_cons.1 each
    rw [DataType.bufferCounts_cons] at enough
    rw [assignedAll_cons]
    refine List.forall_mem_cons.2 ⟨own nodes regions (by omega) words, ih others ?_ ?_⟩
    · rw [List.length_drop]
      omega
    · exact fun n hn => words n (List.mem_of_mem_drop hn)

theorem shaped_assigned {body : Buffer} (word : body.size < wordSize) (t : DataType) :
    ∀ nodes regions, t.bufferCount ≤ regions.length → (∀ n ∈ nodes, n.length < wordSize) →
      Everywhere Shaped (assigned body t nodes regions) := by
  induction t using DataType.inductChildren with
  | step t ih =>
    intro nodes regions enough words
    rw [DataType.bufferCount_eq] at enough
    rw [assigned_eq]
    have count : (headed body t (assignedAll body t.children) nodes regions).buffers.length = t.roles.length := by
      show ((regions.take t.roles.length).map _).length = _
      rw [List.length_map, List.length_take]
      omega
    refine .intro ⟨rfl, ?_, count, fun role mem => ?_, map_type_assignedAll ..⟩ ?_
    · show (nodes.headD ⟨0, 0⟩).length < wordSize
      cases nodes with
      | nil => decide
      | cons n nodes => exact words n (List.mem_cons_self ..)
    · have stored := List.mem_map_of_mem (f := (headed body t (assignedAll body t.children) nodes regions).bytesOf) mem
      rw [← buffers_eq count] at stored
      obtain ⟨r, -, same⟩ := List.mem_map.1 stored
      rw [← same, Region.bytesIn, Array.size_extract]
      omega
    · exact shaped_assignedAll ih (by rw [List.length_drop]; omega) fun n hn => words n (List.mem_of_mem_tail hn)

/-- Where every column has its shape, it can be read all over just if it is sound. -/
theorem Everywhere.sound_iff {c : Column} (shaped : Everywhere Shaped c) : c.Sound ↔ Everywhere Legible c := by
  induction shaped with
  | @intro c shaped _ ih =>
    constructor
    · exact fun sound => .intro (shaped.wellFormed_iff.1 sound.here) fun child mem => (ih child mem).1 (sound.child mem)
    · exact fun legible => .intro (shaped.wellFormed_iff.2 legible.here) fun child mem =>
        (ih child mem).2 (legible.children child mem)

end Column

/-! ## What the walk took -/

namespace Walk

/-- So many entries are gone from either table, and the regions among them lie inside the body. -/
structure Took (body : Buffer) (m k : Nat) (tables left : Tables) : Prop where
  nodes : left.nodes = tables.nodes.drop m
  regions : left.regions = tables.regions.drop k
  inside : ∀ r ∈ tables.regions.take k, r.Inside body

theorem Took.trans {body : Buffer} {m n k l : Nat} {tables between left : Tables} (h : Took body m k tables between)
    (h' : Took body n l between left) : Took body (m + n) (k + l) tables left := by
  refine ⟨?_, ?_, ?_⟩
  · rw [h'.nodes, h.nodes, List.drop_drop]
  · rw [h'.regions, h.regions, List.drop_drop]
  · rw [List.take_add, ← h.regions]
    exact List.forall_mem_append.2 ⟨h.inside, h'.inside⟩

theorem Took.refl {body : Buffer} (tables : Tables) : Took body 0 0 tables tables := ⟨rfl, rfl, by simp⟩

theorem bind_ok {α β : Type} {w : Walk α} {f : α → Walk β} {tables left : Tables} {b : β}
    (h : (w >>= f) tables = .ok (b, left)) :
    ∃ a between, w tables = .ok (a, between) ∧ f a between = .ok (b, left) := by
  obtain ⟨⟨a, between⟩, first, rest⟩ := bind_eq_ok.1 h
  exact ⟨a, between, first, rest⟩

theorem cut_ok {body : Buffer} {t : DataType} {n : Node} {role : Role} {index : Nat} {r : Region} {b : Buffer}
    (h : cut body t n role index r = .ok b) : r.Inside body ∧ b = r.bytesIn body := by
  unfold cut at h
  split at h
  · cases h
  · rename_i within
    have inside : r.offset + r.length ≤ body.size := by omega
    have bytes : body.slice r.offset r.length = .ok (r.bytesIn body) := Buffer.slice_eq_ok inside
    rw [bytes] at h
    refine ⟨inside, ?_⟩
    split at h
    · exact (Except.ok.inj h).symm
    · simp only at h
      split at h <;> cases h
      rfl

theorem buffers_ok {body : Buffer} {t : DataType} {n : Node} {roles : List Role} {tables left : Tables}
    {own : List Buffer} (h : buffers body t n roles tables = .ok (own, left)) :
    own = (tables.regions.take roles.length).map (Region.bytesIn body) ∧ Took body 0 roles.length tables left := by
  induction roles generalizing tables own with
  | nil =>
    cases h
    exact ⟨rfl, .refl _⟩
  | cons role roles ih =>
    obtain ⟨first, between, read, h⟩ := bind_ok h
    obtain ⟨others, left', rest, last⟩ := bind_ok h
    cases last
    obtain ⟨⟨index, r⟩, after, taken, read⟩ := bind_ok read
    obtain ⟨nodes, regions, count⟩ := tables
    cases regions with
    | nil => cases taken
    | cons _ regions =>
      cases taken
      obtain ⟨b, bytes, last⟩ := bind_eq_ok.1 read
      cases last
      obtain ⟨inside, rfl⟩ := cut_ok bytes
      obtain ⟨rfl, took⟩ := ih rest
      have one : Took body 0 1 ⟨nodes, r :: regions, count⟩ ⟨nodes, regions, count + 1⟩ :=
        ⟨rfl, rfl, by simpa using inside⟩
      refine ⟨rfl, ?_⟩
      rw [List.length_cons, Nat.add_comm]
      exact one.trans took

/-- The walk over that type finds nothing but the column that the tables assign. -/
def Follows (body : Buffer) (t : DataType) : Prop :=
  ∀ tables left c, column body t tables = .ok (c, left) →
    c = Column.assigned body t tables.nodes tables.regions ∧ Took body t.nodeCount t.bufferCount tables left

theorem columns_ok {body : Buffer} {fields : List Field} (each : ∀ f ∈ fields, Follows body f.type)
    {tables left : Tables} {columns : List Column} (h : Walk.columns body fields tables = .ok (columns, left)) :
    columns = Column.assignedAll body fields tables.nodes tables.regions ∧
      Took body (DataType.nodeCounts fields) (DataType.bufferCounts fields) tables left := by
  induction fields generalizing tables columns with
  | nil =>
    cases h
    exact ⟨rfl, .refl _⟩
  | cons f fields ih =>
    obtain ⟨own, others⟩ := List.forall_mem_cons.1 each
    obtain ⟨first, between, read, h⟩ := bind_ok h
    obtain ⟨rest, left', read', last⟩ := bind_ok h
    cases last
    obtain ⟨rfl, took⟩ := own _ _ _ read
    obtain ⟨rfl, took'⟩ := ih others read'
    rw [Column.assignedAll_cons, took.nodes, took.regions]
    exact ⟨rfl, took.trans took'⟩

theorem follows (body : Buffer) (t : DataType) : Follows body t := by
  induction t using DataType.inductChildren with
  | step t ih =>
    intro tables left c h
    rw [column_eq] at h
    obtain ⟨n, afterNode, read, h⟩ := bind_ok h
    obtain ⟨own, afterOwn, readOwn, h⟩ := bind_ok h
    obtain ⟨children, afterAll, readBelow, h⟩ := bind_ok h
    obtain ⟨made, checked, last⟩ := bind_eq_ok.1 h
    cases last
    obtain ⟨rfl, -⟩ := Column.assemble_eq_ok.1 checked
    obtain ⟨nodes, regions, count⟩ := tables
    cases nodes with
    | nil => cases read
    | cons _ nodes =>
      cases read
      obtain ⟨rfl, took⟩ := buffers_ok readOwn
      obtain ⟨rfl, took'⟩ := columns_ok ih readBelow
      have node : Took body 1 0 ⟨n :: nodes, regions, count⟩ ⟨nodes, regions, count⟩ := ⟨rfl, rfl, by simp⟩
      rw [DataType.nodeCount_eq, DataType.bufferCount_eq, Column.assigned_eq, took.nodes, took.regions]
      refine ⟨rfl, ?_⟩
      have all := (node.trans took).trans took'
      rwa [Nat.add_zero, Nat.zero_add] at all

end Walk

/-! ## Batches -/

namespace Batch

/-- The tables hold a batch of that schema: each table has as many entries as one walk over the schema takes, the
regions lie inside the body, all columns that are assigned can be read, and those of the fields have as many elements
as there are rows, and no nulls unless the field admits them. -/
structure Tabled (schema : Schema) (header : BatchHeader) (body : Buffer) : Prop where
  nodes : header.nodes.length = schema.nodeCount
  regions : header.regions.length = schema.bufferCount
  inside : ∀ r ∈ header.regions, r.offset + r.length ≤ body.size
  legible : ∀ c ∈ Column.assignedAll body schema.fields header.nodes header.regions,
    Column.Everywhere Column.Legible c
  rows : List.Forall₂ (fun f c => c.length = header.numRows ∧ (f.nullable = false → c.nullCount = 0)) schema.fields
    (Column.assignedAll body schema.fields header.nodes header.regions)

/-- The columns that the tables assign, with the rows that the header declares. -/
def assigned (schema : Schema) (header : BatchHeader) (body : Buffer) : Batch :=
  ⟨schema, header.numRows, Column.assignedAll body schema.fields header.nodes header.regions⟩

variable {schema : Schema} {header : BatchHeader} {body : Buffer}

theorem obeys_iff_of_types {rows : Nat} {columns : List Column} {fields : List Field}
    (types : columns.map (·.type) = fields.map (·.type)) :
    List.Forall₂ (Obeys rows) fields columns ↔
      List.Forall₂ (fun f c => c.length = rows ∧ (f.nullable = false → c.nullCount = 0)) fields columns := by
  constructor
  · exact fun h => h.imp fun f c obeys => ⟨obeys.length, obeys.nulls⟩
  · intro h
    have same : List.Forall₂ (fun f c => c.type = f.type) fields columns :=
      forall₂_of_types types fun _ _ _ type => type
    exact List.Forall₂.mp (fun f c type rest => ⟨type, rest.1, rest.2⟩) same h

theorem shaped_assigned (word : body.size < wordSize) (words : ∀ n ∈ header.nodes, n.length < wordSize)
    (enough : header.regions.length = schema.bufferCount) :
    ∀ c ∈ (assigned schema header body).columns, Column.Everywhere Column.Shaped c :=
  Column.shaped_assignedAll (fun f _ => Column.shaped_assigned word f.type) enough.ge words

theorem start_assigned (word : body.size < wordSize) (words : ∀ n ∈ header.nodes, n.length < wordSize)
    (enough : header.regions.length = schema.bufferCount) :
    ∀ c ∈ (assigned schema header body).columns, Column.Everywhere (·.offset = 0) c :=
  fun c mem => (shaped_assigned word words enough c mem).mono fun _ shaped => shaped.offset

theorem sound_assigned_iff (word : body.size < wordSize) (words : ∀ n ∈ header.nodes, n.length < wordSize)
    (enough : header.regions.length = schema.bufferCount) :
    (∀ c ∈ (assigned schema header body).columns, c.Sound) ↔
      ∀ c ∈ (assigned schema header body).columns, Column.Everywhere Column.Legible c :=
  forall₂_congr fun c mem => (shaped_assigned word words enough c mem).sound_iff

/-- The nodes and buffers of the assigned columns are the nodes and the bytes of the regions of the header, one for
one in the order of the walk. -/
theorem spread_assigned (nodes : header.nodes.length = schema.nodeCount)
    (regions : header.regions.length = schema.bufferCount) :
    Column.spreadAll (assigned schema header body).columns =
      ⟨header.nodes, header.regions.map (Region.bytesIn body)⟩ := by
  have spread := Column.spread_assignedAll (fun f _ => Column.spells body f.type) nodes.ge header.regions
  rw [← Schema.nodeCount, ← Schema.bufferCount, List.take_of_length_le nodes.le,
    List.take_of_length_le regions.le] at spread
  exact spread

/-- A batch is made of what the walk finds, where both counts are right. -/
theorem ofHeader_found {b : Batch} (h : ofHeader schema header body = .ok b) :
    header.nodes.length = schema.nodeCount ∧ header.regions.length = schema.bufferCount ∧
      ∃ columns left, Walk.columns body schema.fields ⟨header.nodes, header.regions, 0⟩ = .ok (columns, left) ∧
        b = ⟨schema, header.numRows, columns⟩ ∧ List.Forall₂ (Obeys header.numRows) schema.fields columns := by
  unfold ofHeader at h
  split at h
  · cases h
  split at h
  · cases h
  rename_i nodes regions
  obtain ⟨⟨columns, left⟩, read, made⟩ := bind_eq_ok.1 h
  exact ⟨not_not.1 nodes, not_not.1 regions, columns, left, read, assembleWith_eq_ok.1 made⟩

theorem ofHeader_ok {b : Batch} (word : body.size < wordSize) (words : ∀ n ∈ header.nodes, n.length < wordSize)
    (h : ofHeader schema header body = .ok b) : Tabled schema header body ∧ b = assigned schema header body := by
  obtain ⟨nodes, regions, columns, left, read, rfl, obeys⟩ := ofHeader_found h
  have brought : Walk.Brings _ (Walk.columns body schema.fields) :=
    Walk.brings_columns fun f _ => Walk.brings_column body f.type
  have reachable : ∀ c ∈ columns, c.Reachable := (brought _).holds read
  obtain ⟨rfl, took⟩ := Walk.columns_ok (fun f _ => Walk.follows body f.type) read
  refine ⟨⟨nodes, regions, ?_, ?_, (obeys_iff_of_types (Column.map_type_assignedAll ..)).1 obeys⟩, rfl⟩
  · have all : header.regions.take schema.bufferCount = header.regions := List.take_of_length_le regions.le
    exact all ▸ took.inside
  · exact (sound_assigned_iff word words regions).1 fun c mem => (reachable c mem).sound

theorem Tabled.ofHeader_eq (h : Tabled schema header body) (word : body.size < wordSize)
    (words : ∀ n ∈ header.nodes, n.length < wordSize) :
    ofHeader schema header body = .ok (assigned schema header body) := by
  have sound := (sound_assigned_iff word words h.regions).2 h.legible
  have types := Column.map_type_assignedAll body schema.fields header.nodes header.regions
  have start := start_assigned word words h.regions
  have spread : Column.spreadAll (assigned schema header body).columns = _ := spread_assigned h.nodes h.regions
  have located : Located body header.regions (Column.spreadAll (assigned schema header body).columns).buffers :=
    spread ▸ located_bytesIn h.inside word
  have each : List.Forall₂ (fun f c => Walk.Takes body f.type c) schema.fields (assigned schema header body).columns :=
    forall₂_of_types types fun f c hc type => type ▸ Walk.takes_of_sound (sound c hc) (start c hc)
  have walk := Walk.columns_eq each located [] [] 0
  rw [List.append_nil, List.append_nil, spread] at walk
  rw [ofHeader, if_neg (not_not.2 h.nodes), if_neg (not_not.2 h.regions)]
  simp only
  rw [walk, ok_bind]
  exact assembleWith_eq_ok.2 ⟨rfl, (obeys_iff_of_types types).2 h.rows⟩

/-- The decoder brings a batch just where the tables hold one: the batch of the columns they assign. Its columns start
at offset zero on every level, and have the lengths and null counts of the nodes and the bytes of the regions, in the
order of the walk. Of the lengths it is only asked that they are machine words. -/
theorem ofHeader_eq_ok_iff (word : body.size < wordSize) (words : ∀ n ∈ header.nodes, n.length < wordSize) :
    (∀ b, ofHeader schema header body = .ok b ↔ Tabled schema header body ∧ b = assigned schema header body) ∧
    ∀ b, ofHeader schema header body = .ok b →
      Column.spreadAll b.columns = ⟨header.nodes, header.regions.map (Region.bytesIn body)⟩ ∧
        ∀ c ∈ b.columns, Column.Everywhere (·.offset = 0) c := by
  refine ⟨fun b => ⟨ofHeader_ok word words, ?_⟩, fun b ran => ?_⟩
  · rintro ⟨tabled, rfl⟩
    exact tabled.ofHeader_eq word words
  · obtain ⟨tabled, rfl⟩ := ofHeader_ok word words ran
    exact ⟨spread_assigned tabled.nodes tabled.regions, start_assigned word words tabled.regions⟩

/-- Two lists over three bytes, with `nulls` nulls declared but no bitmap. -/
def listsHeader (nulls : Nat) : BatchHeader := ⟨2, [⟨2, nulls⟩, ⟨3, 0⟩], [⟨0, 0⟩, ⟨0, 12⟩, ⟨16, 0⟩, ⟨16, 3⟩]⟩

def listsBody : Buffer := #[0, 0, 0, 0, 1, 0, 0, 0, 3, 0, 0, 0, 0, 0, 0, 0, 1, 2, 3, 0, 0, 0, 0, 0]

theorem ofHeader_eq_ok_iff_lists :
    Tabled secondList.schema (listsHeader 0) listsBody ∧ ¬ Tabled secondList.schema (listsHeader 1) listsBody := by
  have made : ofHeader secondList.schema (listsHeader 0) listsBody = .ok ⟨secondList.schema, 2, [lists]⟩ := by rfl
  have refused : (ofHeader secondList.schema (listsHeader 1) listsBody).toOption.isSome = false := by rfl
  refine ⟨(((ofHeader_eq_ok_iff (by decide) (by decide)).1 _).1 made).1, fun tabled => ?_⟩
  rw [((ofHeader_eq_ok_iff (by decide) (by decide)).1 _).2 ⟨tabled, rfl⟩] at refused
  cases refused

end Batch

end ColumnStream
