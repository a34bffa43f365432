/-
A batch goes through its encoding unchanged. The encoder lays out the packed columns of a sound batch;
header and body are read back as a batch of just these columns, which equals the original and starts
at offset zero everywhere.
-/
import ColumnStream.Proofs.Batch.Reachable
import ColumnStream.Proofs.Batch.Unpack
import ColumnStream.Proofs.Metadata.RoundTrip

namespace ColumnStream

theorem DataType.nodeCounts_of_types {columns : List Column} {fields : List Field}
    (types : columns.map (·.type) = fields.map (·.type)) :
    nodeCounts fields = (columns.map fun c => c.type.nodeCount).sum ∧
      bufferCounts fields = (columns.map fun c => c.type.bufferCount).sum := by
  induction fields generalizing columns with
  | nil =>
    rw [List.map_nil, List.map_eq_nil_iff] at types
    subst types
    exact ⟨rfl, rfl⟩
  | cons f fields ih =>
    obtain ⟨c, columns, rfl, type, tail⟩ := List.map_eq_cons_iff.1 types
    obtain ⟨name, t, nullable⟩ := f
    obtain ⟨nodes, buffers⟩ := ih tail
    rw [nodeCounts, bufferCounts, nodes, buffers, List.map_cons, List.sum_cons, List.map_cons, List.sum_cons, type]
    exact ⟨rfl, rfl⟩

/-! ## The tables of sound columns -/

namespace Column

/-- A column takes the entries of the tables that its type says, with numbers that are machine words. -/
structure Entries (c : Column) : Prop where
  nodes : c.spread.nodes.length = c.type.nodeCount
  buffers : c.spread.buffers.length = c.type.bufferCount
  node : ∀ n ∈ c.spread.nodes, n.length < wordSize ∧ n.nullCount < wordSize

theorem entries_all {columns : List Column} (each : ∀ c ∈ columns, c.Entries) :
    (spreadAll columns).nodes.length = (columns.map fun c => c.type.nodeCount).sum ∧
      (spreadAll columns).buffers.length = (columns.map fun c => c.type.bufferCount).sum ∧
        ∀ n ∈ (spreadAll columns).nodes, n.length < wordSize ∧ n.nullCount < wordSize := by
  induction columns with
  | nil => exact ⟨rfl, rfl, fun n hn => nomatch hn⟩
  | cons c columns ih =>
    have own := each c (List.mem_cons_self ..)
    obtain ⟨nodes, buffers, node⟩ := ih fun d hd => each d (List.mem_cons_of_mem _ hd)
    rw [spreadAll, Flattened.nodes_append, Flattened.buffers_append, List.length_append, List.length_append, own.nodes,
      own.buffers, nodes, buffers, List.map_cons, List.sum_cons, List.map_cons, List.sum_cons]
    refine ⟨rfl, rfl, fun n hn => ?_⟩
    rcases List.mem_append.1 hn with hn | hn
    · exact own.node n hn
    · exact node n hn

theorem Sound.entries {c : Column} (h : c.Sound) : c.Entries := by
  induction h with
  | @intro c wf _ ih =>
    obtain ⟨nodes, buffers, node⟩ := entries_all ih
    obtain ⟨nodes', buffers'⟩ := DataType.nodeCounts_of_types wf.children
    have nulls := wf.nulls
    have word := wf.word
    unfold stop at word
    constructor
    · rw [spread_eq, Flattened.nodes_append, List.length_append, nodes, DataType.nodeCount_eq, nodes']
      rfl
    · rw [spread_eq, Flattened.buffers_append, List.length_append, buffers, DataType.bufferCount_eq, buffers',
        wf.buffers]
    · intro n hn
      rw [spread_eq, Flattened.nodes_append] at hn
      rcases List.mem_cons.1 hn with rfl | hn
      · exact ⟨by simp only [Column.node]; omega, by simp only [Column.node]; omega⟩
      · exact node n hn

end Column

namespace Batch

/-! ## Reading a laid out batch -/

theorem types_of_obeys {rows : Nat} {fields : List Field} {columns : List Column}
    (h : List.Forall₂ (Obeys rows) fields columns) : columns.map (·.type) = fields.map (·.type) := by
  induction h with
  | nil => rfl
  | cons first _ ih => rw [List.map_cons, List.map_cons, first.type, ih]

/-- The header of a batch as it is, with the body's buffers where they are stored. -/
def spreadHeader (b : Batch) : BatchHeader :=
  ⟨b.numRows, (Column.spreadAll b.columns).nodes, regionsFrom 0 (Column.spreadAll b.columns).buffers⟩

def spreadBody (b : Batch) : Buffer := bodyOf (Column.spreadAll b.columns).buffers

namespace Sound

variable {b : Batch}

theorem count_eq (h : b.Sound) :
    b.spreadHeader.nodes.length = b.schema.nodeCount ∧ b.spreadHeader.regions.length = b.schema.bufferCount := by
  obtain ⟨nodes, buffers, -⟩ := Column.entries_all fun c hc => (h.sound c hc).entries
  obtain ⟨nodes', buffers'⟩ := DataType.nodeCounts_of_types (types_of_obeys h.obeys)
  constructor
  · rw [spreadHeader, nodes, Schema.nodeCount, nodes']
  · rw [spreadHeader, length_regionsFrom, buffers, Schema.bufferCount, buffers']

/-- What was stored from offset zero on is read back as it was. -/
theorem ofHeader_eq (h : b.Sound) (start : ∀ c ∈ b.columns, Column.Everywhere (·.offset = 0) c)
    (word : b.spreadBody.size < wordSize) : ofHeader b.schema b.spreadHeader b.spreadBody = .ok b := by
  obtain ⟨nodes, regions⟩ := h.count_eq
  have each : List.Forall₂ (fun f c => Walk.Takes b.spreadBody f.type c) b.schema.fields b.columns :=
    forall₂_of_types (types_of_obeys h.obeys) fun f c hc type =>
      type ▸ Walk.takes_of_sound (h.sound c hc) (start c hc)
  have walk := Walk.columns_eq each (located_bodyOf word) [] [] 0
  rw [List.append_nil, List.append_nil] at walk
  rw [ofHeader, if_neg (by rw [nodes]; simp), if_neg (by rw [regions]; simp)]
  simp only [spreadHeader] at *
  rw [walk, ok_bind]
  exact assembleWith_eq_ok.2 ⟨rfl, h.obeys⟩

end Sound

/-! ## Packed batches -/

/-- The batch is small enough for a machine to hold: the entries of its tables can be counted, and every
bitmap ends before the last positions of a word. -/
structure InMemory (b : Batch) : Prop where
  nodes : b.schema.nodeCount < wordSize
  buffers : b.schema.bufferCount < wordSize
  bitmaps : ∀ c ∈ b.columns, c.Addressable

/-- `d` has the packed columns of `b`, in place of its own. -/
structure Packed (b d : Batch) : Prop where
  schema : d.schema = b.schema
  rows : d.numRows = b.numRows
  columns : List.Forall₂ (fun c c' => Column.Packs c.type c c') b.columns d.columns

theorem flattenAll_eq {columns : List Column} (sound : ∀ c ∈ columns, c.Sound)
    (small : ∀ c ∈ columns, c.Addressable) :
    ∃ packed, flattenAll columns = .ok (Column.spreadAll packed) ∧
      List.Forall₂ (fun c d => Column.Packs c.type c d) columns packed := by
  induction columns with
  | nil => exact ⟨[], rfl, .nil⟩
  | cons c columns ih =>
    obtain ⟨d, flat, packs⟩ := Column.flattenAs_eq c.type c (sound c (by simp)) (small c (by simp)) rfl
    obtain ⟨packed, ran, all⟩ := ih (fun c hc => sound c (by simp [hc])) (fun c hc => small c (by simp [hc]))
    refine ⟨d :: packed, ?_, .cons packs all⟩
    rw [flattenAll, show c.flatten = _ from flat, ok_bind, ran, ok_bind]
    rfl

/-- Laying a batch out never fails: header and body are those of its packed columns. -/
theorem layOut_eq {b : Batch} (h : b.Sound) (small : b.InMemory) :
    ∃ d : Batch, b.Packed d ∧ b.layOut = .ok (d.spreadHeader, d.spreadBody) := by
  obtain ⟨packed, flat, all⟩ := flattenAll_eq h.sound small.bitmaps
  exact ⟨⟨b.schema, b.numRows, packed⟩, ⟨rfl, rfl, all⟩, by rw [layOut, flat]; rfl⟩

theorem kept_of_packs {columns packed : List Column}
    (all : List.Forall₂ (fun c d => Column.Packs c.type c d) columns packed) (sound : ∀ c ∈ columns, c.Sound) :
    ∀ d ∈ packed, d.Sound ∧ Column.Everywhere Column.Compact d := by
  induction all with
  | nil => simp
  | @cons c d columns packed packs _ ih =>
    obtain ⟨own, sound⟩ := List.forall_mem_cons.1 sound
    have kept := Column.Packs.kept c.type c d own rfl packs
    exact List.forall_mem_cons.2 ⟨⟨kept.sound, kept.compact⟩, ih sound⟩

theorem obeys_of_packs {rows : Nat} {fields : List Field} {columns packed : List Column}
    (all : List.Forall₂ (fun c d => Column.Packs c.type c d) columns packed)
    (obeys : List.Forall₂ (Obeys rows) fields columns) : List.Forall₂ (Obeys rows) fields packed := by
  induction all generalizing fields with
  | nil => exact obeys
  | @cons c d columns packed packs _ ih =>
    obtain ⟨f, fields, first, tail, rfl⟩ := List.forall₂_cons_right_iff.1 obeys
    exact .cons ⟨packs.own.type.trans first.type, packs.own.length.trans first.length, fun required =>
      packs.own.nullCount.trans (first.nulls required)⟩ (ih tail)

theorem equalColumns_of_packs {columns packed : List Column}
    (all : List.Forall₂ (fun c d => Column.Packs c.type c d) columns packed) (sound : ∀ c ∈ columns, c.Sound)
    (small : ∀ c ∈ columns, c.Addressable) :
    equalColumns packed columns = .ok true ∧ equalColumns columns packed = .ok true := by
  induction all with
  | nil => exact ⟨rfl, rfl⟩
  | @cons c d columns packed packs _ ih =>
    obtain ⟨own, sound⟩ := List.forall_mem_cons.1 sound
    obtain ⟨ownSmall, small⟩ := List.forall_mem_cons.1 small
    obtain ⟨back, forth⟩ := packs.equal_eq own ownSmall
    obtain ⟨back', forth'⟩ := ih sound small
    exact ⟨by rw [equalColumns, back, ok_bind]; exact back', by rw [equalColumns, forth, ok_bind]; exact forth'⟩

namespace Packed

variable {b d : Batch}

theorem sound (packed : b.Packed d) (h : b.Sound) : d.Sound := by
  refine ⟨?_, fun c hc => (kept_of_packs packed.columns h.sound c hc).1, by rw [packed.rows]; exact h.word⟩
  rw [packed.rows, packed.schema]
  exact obeys_of_packs packed.columns h.obeys

theorem compact (packed : b.Packed d) (h : b.Sound) : ∀ c ∈ d.columns, Column.Everywhere Column.Compact c :=
  fun c hc => (kept_of_packs packed.columns h.sound c hc).2

theorem equal_eq (packed : b.Packed d) (h : b.Sound) (small : b.InMemory) :
    d.equal b = .ok true ∧ b.equal d = .ok true := by
  obtain ⟨back, forth⟩ := equalColumns_of_packs packed.columns h.sound small.bitmaps
  constructor
  · rw [equal, if_pos ⟨packed.schema, packed.rows⟩, back]
  · rw [equal, if_pos ⟨packed.schema.symm, packed.rows.symm⟩, forth]

theorem ofHeader_eq (packed : b.Packed d) (h : b.Sound) (word : d.spreadBody.size < wordSize) :
    ofHeader b.schema d.spreadHeader d.spreadBody = .ok d := by
  rw [← packed.schema]
  exact (packed.sound h).ofHeader_eq (fun c hc => (packed.compact h c hc).mono fun _ compact => compact.offset) word

/-- The header can be written if the length of the body is a machine word. -/
theorem encode_eq (packed : b.Packed d) (h : b.Sound) (small : b.InMemory) (word : d.spreadBody.size < wordSize) :
    ∃ metadata, Metadata.encode ⟨.batch d.spreadHeader, d.spreadBody.size⟩ = .ok metadata := by
  have sound := packed.sound h
  obtain ⟨nodes, regions⟩ := sound.count_eq
  rw [packed.schema] at nodes regions
  refine Metadata.encode_eq_ok ⟨sound.word, nodes ▸ small.nodes, ?_, regions ▸ small.buffers, fun r hr => ?_⟩ word
  · exact (Column.entries_all fun c hc => (sound.sound c hc).entries).2.2
  · exact (located_bodyOf word).word r hr

/-- What was encoded is read back with its packed columns. -/
theorem decode_eq (packed : b.Packed d) (h : b.Sound) (word : d.spreadBody.size < wordSize) {metadata : Bytes}
    (written : Metadata.encode ⟨.batch d.spreadHeader, d.spreadBody.size⟩ = .ok metadata) :
    decode b.schema metadata d.spreadBody = .ok d := by
  have read := Metadata.decode_encode written []
  rw [List.append_nil] at read
  rw [decode, read, ok_bind]
  exact packed.ofHeader_eq h word

end Packed

/-! ## There and back -/

/-- Encoding a sound batch: its packed columns, and a metadata block as long as the body's length is a
machine word. -/
theorem Sound.encode_eq {b : Batch} (h : b.Sound) (small : b.InMemory) :
    ∃ d : Batch, b.Packed d ∧ b.layOut = .ok (d.spreadHeader, d.spreadBody) ∧ (d.spreadBody.size < wordSize →
      ∃ metadata, Metadata.encode ⟨.batch d.spreadHeader, d.spreadBody.size⟩ = .ok metadata ∧
        b.encode = .ok (metadata, d.spreadBody)) := by
  obtain ⟨d, packed, laid⟩ := layOut_eq h small
  refine ⟨d, packed, laid, fun word => ?_⟩
  obtain ⟨metadata, written⟩ := packed.encode_eq h small word
  exact ⟨metadata, written, by rw [encode, laid, ok_bind]; simp only; rw [written]; rfl⟩

/-- A batch is encoded and decoded without fail. What comes back is the batch with its columns packed: it
equals the original from either side, starts at offset zero on every level, and has below each column just
what the column's elements cover. -/
theorem decode_encode_of_reachable {b : Batch} (h : b.Reachable) (small : b.InMemory) :
    ∃ header body, b.layOut = .ok (header, body) ∧ (body.size < wordSize →
      ∃ metadata d, b.encode = .ok (metadata, body) ∧ decode b.schema metadata body = .ok d ∧
        d.equal b = .ok true ∧ b.equal d = .ok true ∧ b.Packed d ∧
        ∀ c ∈ d.columns, Column.Everywhere Column.Compact c) := by
  obtain ⟨d, packed, laid, encoded⟩ := h.sound.encode_eq small
  refine ⟨_, _, laid, fun word => ?_⟩
  obtain ⟨metadata, written, encoded⟩ := encoded word
  obtain ⟨back, forth⟩ := packed.equal_eq h.sound small
  refine ⟨metadata, d, encoded, ?_, back, forth, packed, packed.compact h.sound⟩
  have read := Metadata.decode_encode written []
  rw [List.append_nil] at read
  rw [decode, read, ok_bind]
  exact packed.ofHeader_eq h.sound word

/-- Two lists over three bytes, and a batch of the second one alone. -/
def items : Column := ⟨.fixed .uint8, 3, 0, 0, [#[], #[1, 2, 3]], []⟩

def lists : Column :=
  ⟨.list ⟨"item", items.type, false⟩, 2, 0, 0, [#[], #[0, 0, 0, 0, 1, 0, 0, 0, 3, 0, 0, 0]], [items]⟩

def secondList : Batch := ⟨⟨[⟨"lists", lists.type, true⟩]⟩, 1, [lists.part 1 1]⟩

theorem assemble_items : Column.assemble items.type 3 0 0 items.buffers [] = .ok items := rfl

theorem assemble_lists : Column.assemble lists.type 2 0 0 lists.buffers [items] = .ok lists := rfl

theorem assemble_bothLists :
    assemble secondList.schema [lists] = .ok ⟨secondList.schema, 2, [lists]⟩ := rfl

theorem slice_bothLists : slice ⟨secondList.schema, 2, [lists]⟩ 1 1 = .ok secondList := rfl

theorem reachable_secondList : secondList.Reachable := by
  have below : items.Reachable := .assembled (by simp) assemble_items
  have column : lists.Reachable := .assembled (by simpa using below) assemble_lists
  have whole : Batch.Reachable ⟨secondList.schema, 2, [lists]⟩ :=
    .assembled (by simpa using column) (by decide) assemble_bothLists
  exact whole.sliced slice_bothLists

theorem inMemory_secondList : secondList.InMemory := by
  refine ⟨by decide, by decide, fun c mem => ?_⟩
  obtain rfl := List.mem_singleton.1 mem
  refine .intro (fun validity found => nomatch found) fun child mem => ?_
  obtain rfl := List.mem_singleton.1 mem
  exact .intro (fun validity found => nomatch found) (by simp [items])

theorem decode_encode_secondList :
    ∃ metadata d, secondList.encode = .ok (metadata, #[0, 0, 0, 0, 2, 0, 0, 0, 2, 3, 0, 0, 0, 0, 0, 0]) ∧
      decode secondList.schema metadata #[0, 0, 0, 0, 2, 0, 0, 0, 2, 3, 0, 0, 0, 0, 0, 0] = .ok d ∧
      d.equal secondList = .ok true := by
  obtain ⟨header, body, laid, rest⟩ := decode_encode_of_reachable reachable_secondList inMemory_secondList
  have stored : secondList.layOut = .ok (_, #[0, 0, 0, 0, 2, 0, 0, 0, 2, 3, 0, 0, 0, 0, 0, 0]) := rfl
  obtain ⟨rfl, rfl⟩ := Prod.mk.inj (Except.ok.inj (laid.symm.trans stored))
  obtain ⟨metadata, d, encoded, decoded, equal, -⟩ := rest (by decide)
  exact ⟨metadata, d, encoded, decoded, equal⟩

end Batch

end ColumnStream
