/-
Encoding is stable: a packed column is its own packed column, byte for byte, so that a batch read back from
its encoding is encoded as the same metadata and body again.
-/
import ColumnStream.Proofs.Batch.RoundTrip

namespace ColumnStream

/-- A bitmap of just the right size is stored as it is, with the bits after its last one. -/
theorem Bitmap.packed_all {data : Buffer} {count : Nat} (size : data.size = bytesFor count) :
    packed data 0 count = .ok data := by
  rw [packed, if_pos (by decide), ← size, Nat.zero_div, Buffer.slice_all]

namespace Column

/-- A column is the slice of all its elements. -/
theorem WellFormed.slice_all {c : Column} (wf : c.WellFormed) : c.slice 0 c.length = .ok c := by
  have word := wf.word
  have counted := wf.counted
  unfold stop at word
  have nulls : c.recount c.offset c.length = .ok c.nullCount := by
    unfold Counted at counted
    unfold recount
    cases found : c.validity? with
    | none =>
      simp only [found] at counted
      rw [counted]
    | some validity =>
      simp only [found] at counted
      exact counted.2
  rw [slice_eq, Nat.zero_add, if_pos ⟨by omega, le_refl _⟩, Word.add_eq_ok (by omega), ok_bind, Nat.add_zero, nulls,
    ok_bind]
  obtain ⟨_, _, _, _, _, _⟩ := c
  rfl

/-! ## The parts of a packed column -/

namespace Own

variable {c d : Column}

theorem storedValidity_eq (own : Own c d) (wf : c.WellFormed) : d.storedValidity = .ok (d.bytesOf .validity) := by
  rcases Nat.eq_zero_or_pos c.nullCount with none | some
  · rw [storedValidity, own.validity?_of_none none, own.absent none]
  · have nulls : 0 < d.nullCount := own.nullCount ▸ some
    rw [storedValidity, own.validity?_of_nulls wf some]
    simp only
    rw [if_pos nulls, own.offset, own.length, Bitmap.packed_all (own.stored some).1]

/-- The offsets of a packed column start at zero and are stored as they are. -/
theorem rebasedOffsets_eq (own : Own c d) (wf : c.WellFormed) (role : .offsets ∈ c.type.roles) {limit : Nat}
    (rising : c.length ≠ 0 → c.Rising limit) (same : d.bytesOf .offsets = offsetBuffer c.ownOffsets) :
    d.rebasedOffsets = .ok (d.bytesOf .offsets, 0, c.span) := by
  have word := wf.word
  have bounds (some : c.length ≠ 0) {k : Nat} (hk : k ≤ c.length) : d.bound k = c.bound k - c.bound 0 :=
    (own.bound_eq wf role (rising some) same some hk).2
  have first : d.first = 0 := by
    unfold Column.first
    rw [own.length]
    split
    · rfl
    · rename_i some
      rw [bounds some (Nat.zero_le _), Nat.sub_self]
  have offsets : d.ownOffsets = c.ownOffsets := by
    unfold ownOffsets
    rw [own.length]
    split
    · rfl
    · rename_i some
      refine List.map_congr_left fun k hk => ?_
      rw [bounds some (by simpa using hk), bounds some (Nat.zero_le _)]
      omega
  have word' : d.stop < wordSize := by
    rw [own.stop_eq]
    unfold stop at word
    omega
  have rising' : d.length ≠ 0 → d.Rising c.span := fun some =>
    own.rising wf role (rising (own.length ▸ some)) same (own.length ▸ some)
  have rebased := (Column.rebasedOffsets_eq word' rising').1
  rwa [offsets, first, own.span_eq wf role rising same, ← same] at rebased

theorem spread_eq (own : Own c d) :
    d.spread = ⟨[d.node], c.type.roles.map d.bytesOf⟩ ++ spreadAll d.children := by
  rw [Column.spread_eq, buffers_eq (by rw [own.buffers, own.type]), own.type]

end Own

/-! ## Packed columns are flattened as they are -/

theorem flatten_packed_fixed {p : Primitive} {c d : Column} (wf : c.WellFormed) (type : c.type = .fixed p)
    (own : Own c d) (childless : d.children = []) : flattenAs (.fixed p) d = .ok d.spread := by
  have word := wf.word
  have values := own.size_fixed wf type
  obtain ⟨fits, -⟩ := wf.room_words type
  unfold stop at word
  have short : c.length * p.width < wordSize := by
    rw [Nat.add_mul] at fits
    omega
  have all : (d.bytesOf .values).range 0 (c.length * p.width) = .ok (d.bytesOf .values) := by
    rw [Buffer.range, if_pos (Nat.zero_le _), Nat.sub_zero, ← values, Buffer.slice_all]
  rw [flattenAs, own.offset, own.length, Word.mul_eq_ok (by rw [Nat.zero_mul]; decide), ok_bind,
    Word.add_eq_ok (by omega), ok_bind, Nat.zero_add, Word.mul_eq_ok short, ok_bind, own.storedValidity_eq wf,
    ok_bind, Nat.zero_mul, all, ok_bind, own.spread_eq, childless, type]
  rfl

theorem flatten_packed_variable {t : DataType} {c d : Column} (wf : c.WellFormed) (type : c.type = t)
    (variable_ : t = .binary ∨ t = .utf8) (own : Own c d) (childless : d.children = []) :
    flattenAs t d = .ok d.spread := by
  have repacks := own.repacks
  have role : .offsets ∈ c.type.roles := by rcases variable_ with rfl | rfl <;> simp [type, DataType.roles]
  have rising := wf.rising_values (type ▸ variable_)
  obtain ⟨offsets, values⟩ : d.bytesOf .offsets = offsetBuffer c.ownOffsets ∧
      d.bytesOf .values = (c.bytesOf .values).extract c.first (c.first + c.span) := by
    rcases variable_ with rfl | rfl <;> simpa only [Repacks, type] using repacks
  obtain ⟨-, inside⟩ := Column.rebasedOffsets_eq wf.word rising
  have size : (d.bytesOf .values).size = c.span := by
    rw [values, Array.size_extract, Nat.min_eq_left inside, Nat.add_sub_cancel_left]
  have all : (d.bytesOf .values).slice 0 c.span = .ok (d.bytesOf .values) := by rw [← size, Buffer.slice_all]
  have rebased := own.rebasedOffsets_eq wf role rising offsets
  rcases variable_ with rfl | rfl <;> rw [flattenAs, rebased, ok_bind] <;> simp only <;>
    rw [own.storedValidity_eq wf, ok_bind, all, ok_bind, own.spread_eq, childless, type] <;> rfl

theorem flatten_packed_boolean {c d : Column} (wf : c.WellFormed) (type : c.type = .boolean) (own : Own c d)
    (childless : d.children = []) : flattenAs .boolean d = .ok d.spread := by
  have repacks := own.repacks
  simp only [Repacks, type] at repacks
  rw [flattenAs, own.offset, own.length, Bitmap.packed_all repacks.1, ok_bind, own.storedValidity_eq wf, ok_bind,
    own.spread_eq, childless, type]
  rfl

theorem flattenMembers_packed {members : List Field} {start count : Nat} {children packed : List Column}
    (types : children.map (·.type) = members.map (·.type)) (sound : ∀ child ∈ children, child.Sound)
    (all : PacksAll members start count children packed)
    (each : ∀ f ∈ members, ∀ part d, part.Sound → part.type = f.type → Packs f.type part d →
      d.Sound ∧ flattenAs f.type d = .ok d.spread) :
    flattenMembers members packed 0 count = .ok (spreadAll packed) := by
  induction members generalizing children packed with
  | nil =>
    rw [List.map_nil, List.map_eq_nil_iff] at types
    subst types
    cases packed with
    | nil => rfl
    | cons _ _ => simp [PacksAll] at all
  | cons f members ih =>
    obtain ⟨child, children, rfl, type, tail⟩ := List.map_eq_cons_iff.1 types
    obtain ⟨own, others⟩ := List.forall_mem_cons.1 sound
    cases packed with
    | nil => simp [PacksAll] at all
    | cons d packed =>
      obtain ⟨name, t, nullable⟩ := f
      obtain ⟨⟨part, sliced, packs⟩, all⟩ := all
      obtain ⟨rfl, -, -⟩ := slice_ok sliced
      obtain ⟨packedSound, flat⟩ := each _ (List.mem_cons_self ..) _ d (own.slice sliced) type packs
      have rest := ih tail others all fun g hg => each g (List.mem_cons_of_mem _ hg)
      -- The packed child is as long as the struct, so that it is not cut again.
      have length : d.length = count := packs.own.length
      have whole := packedSound.here.slice_all
      rw [length] at whole
      rw [flattenMembers, whole, ok_bind, flat, ok_bind, rest, ok_bind]
      rfl

/-- A packed column is flattened to just its own nodes and buffers. -/
theorem Packs.flatten_eq (t : DataType) : ∀ c d : Column, c.Sound → c.type = t → Packs t c d →
    flattenAs t d = .ok d.spread := by
  induction t using DataType.induct with
  | flat t isFlat =>
    intro c d sound type packs
    have own := packs.own
    have childless : d.children = [] := by
      cases t <;> first | exact packs.2.2 | cases isFlat
    cases t with
    | boolean => exact flatten_packed_boolean sound.here type own childless
    | fixed p => exact flatten_packed_fixed sound.here type own childless
    | binary => exact flatten_packed_variable sound.here type (.inl rfl) own childless
    | utf8 => exact flatten_packed_variable sound.here type (.inr rfl) own childless
    | list _ => cases isFlat
    | struct _ => cases isFlat
  | list item ih =>
    intro c d sound type packs
    have own := packs.own
    have wf := sound.here
    have role : .offsets ∈ c.type.roles := by simp [type, DataType.roles]
    have repacks := own.repacks
    simp only [Repacks, type] at repacks
    obtain ⟨child, children, childType, childSound, rising⟩ := sound.children_of_list type
    obtain ⟨name, t, nullable⟩ := item
    obtain ⟨-, child', part, packed, children', packedChildren, sliced, below⟩ := packs
    obtain rfl : child' = child := by simpa [children] using children'.symm
    obtain ⟨rfl, -, -⟩ := slice_ok sliced
    have partSound := childSound.slice sliced
    have kept := Packs.kept t _ packed partSound childType below
    have length : packed.length = c.span := below.own.length
    have whole := kept.sound.here.slice_all
    rw [length] at whole
    have head : d.children.head? = some packed := by rw [packedChildren]; rfl
    rw [flattenAs, own.rebasedOffsets_eq wf role rising repacks, ok_bind]
    simp only
    rw [own.storedValidity_eq wf, ok_bind, head]
    simp only
    rw [whole, ok_bind, ih _ packed partSound childType below, ok_bind, own.spread_eq, packedChildren, type]
    simp [spreadAll, DataType.roles, pure, Except.pure]
  | struct members ih =>
    intro c d sound type packs
    have own := packs.own
    have wf := sound.here
    have types := wf.children
    simp only [type, DataType.children] at types
    have below := flattenMembers_packed types (fun child hc => sound.child hc) packs.2 fun f hf part d partSound
      partType packs => by
        have kept := Packs.kept f.type part d partSound partType packs
        exact ⟨kept.sound, ih f hf part d partSound partType packs⟩
    rw [flattenAs, own.storedValidity_eq wf, ok_bind, own.offset, own.length, below, ok_bind, own.spread_eq, type]
    rfl

end Column

namespace Batch

/-! ## Batches -/

theorem flattenAll_ok {columns : List Column} {flat : Flattened} (sound : ∀ c ∈ columns, c.Sound)
    (ran : flattenAll columns = .ok flat) : ∃ packed, flat = Column.spreadAll packed ∧
      List.Forall₂ (fun c d => Column.Packs c.type c d) columns packed := by
  induction columns generalizing flat with
  | nil =>
    cases ran
    exact ⟨[], rfl, .nil⟩
  | cons c columns ih =>
    obtain ⟨own, others⟩ := List.forall_mem_cons.1 sound
    obtain ⟨first, listed, ran⟩ := bind_eq_ok.1 ran
    obtain ⟨below, rest, last⟩ := bind_eq_ok.1 ran
    cases last
    obtain ⟨d, rfl, packs⟩ := Column.flattenAs_ok c.type c first own rfl listed
    obtain ⟨packed, rfl, all⟩ := ih others rest
    exact ⟨d :: packed, rfl, .cons packs all⟩

theorem flattenAll_packed {columns packed : List Column}
    (all : List.Forall₂ (fun c d => Column.Packs c.type c d) columns packed) (sound : ∀ c ∈ columns, c.Sound) :
    flattenAll packed = .ok (Column.spreadAll packed) := by
  induction all with
  | nil => rfl
  | @cons c d columns packed packs _ ih =>
    obtain ⟨own, others⟩ := List.forall_mem_cons.1 sound
    have flat : d.flatten = .ok d.spread := by
      rw [Column.flatten, packs.own.type]
      exact Column.Packs.flatten_eq c.type c d own rfl packs
    rw [flattenAll, flat, ok_bind, ih others, ok_bind]
    rfl

/-- A packed batch is laid out as it is. -/
theorem Packed.layOut_eq {b d : Batch} (packed : b.Packed d) (h : b.Sound) :
    d.layOut = .ok (d.spreadHeader, d.spreadBody) := by
  rw [layOut, flattenAll_packed packed.columns h.sound, ok_bind]
  rfl

/-- What was encoded are the packed columns, in a body whose length is a machine word. -/
theorem Sound.encode_ok {b : Batch} (h : b.Sound) {metadata : Bytes} {body : Buffer}
    (encoded : b.encode = .ok (metadata, body)) : ∃ d : Batch, b.Packed d ∧ body = d.spreadBody ∧
      Metadata.encode ⟨.batch d.spreadHeader, body.size⟩ = .ok metadata := by
  obtain ⟨⟨header, body'⟩, laid, rest⟩ := bind_eq_ok.1 encoded
  obtain ⟨flat, listed, last⟩ := bind_eq_ok.1 laid
  obtain ⟨written, hwritten, rest⟩ := bind_eq_ok.1 rest
  cases rest
  cases last
  obtain ⟨columns, rfl, all⟩ := flattenAll_ok h.sound listed
  exact ⟨⟨b.schema, b.numRows, columns⟩, ⟨rfl, rfl, all⟩, rfl, hwritten⟩

/-- Whatever was encoded reads back as a batch that is encoded as the same metadata and body. -/
theorem Sound.encode_stable {b : Batch} (h : b.Sound) {metadata : Bytes} {body : Buffer}
    (encoded : b.encode = .ok (metadata, body)) :
    ∃ header d, Metadata.encode ⟨.batch header, body.size⟩ = .ok metadata ∧
      ofHeader b.schema header body = .ok d ∧ d.schema = b.schema ∧ d.encode = .ok (metadata, body) := by
  obtain ⟨d, packed, rfl, written⟩ := h.encode_ok encoded
  refine ⟨d.spreadHeader, d, written, packed.ofHeader_eq h (Metadata.encode_word written), packed.schema, ?_⟩
  rw [encode, packed.layOut_eq h, ok_bind]
  simp only
  exact bind_eq_ok.2 ⟨metadata, written, rfl⟩

theorem Sound.decode_stable {b : Batch} (h : b.Sound) {metadata : Bytes} {body : Buffer}
    (encoded : b.encode = .ok (metadata, body)) (pad : Bytes) :
    ∃ d, decode b.schema (metadata ++ pad) body = .ok d ∧ d.encode = .ok (metadata, body) := by
  obtain ⟨header, d, written, read, -, again⟩ := h.encode_stable encoded
  refine ⟨d, ?_, again⟩
  rw [decode, Metadata.decode_encode written, ok_bind]
  exact read

end Batch

end ColumnStream
