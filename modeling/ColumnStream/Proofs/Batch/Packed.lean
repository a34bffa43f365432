/-
Packed columns are sound again and hold the values of the columns they were packed from. The nulls,
offsets and values of a packed column are traced back to the original first; the induction over the
type then only has to look at the children.
-/
import ColumnStream.Proofs.Batch.Pack

namespace ColumnStream.Column

/-! ## Nulls, offsets and values of a packed column -/

namespace Own

variable {c d : Column}

theorem validity?_eq (own : Own c d) :
    d.validity? = if (d.bytesOf .validity).isEmpty then none else some (d.bytesOf .validity) :=
  Column.validity?_eq (by rw [own.buffers, own.type])

theorem validity?_of_nulls (own : Own c d) (wf : c.WellFormed) (some : 0 < c.nullCount) :
    d.validity? = .some (d.bytesOf .validity) := by
  have size := (own.stored some).1
  have nulls := wf.nulls
  rw [bytesFor_eq] at size
  rw [own.validity?_eq, if_neg]
  simp only [Array.isEmpty_iff_size_eq_zero]
  omega

theorem validity?_of_none (own : Own c d) (none : c.nullCount = 0) : d.validity? = .none := by
  rw [own.validity?_eq, own.absent none]
  rfl

theorem present_eq (own : Own c d) (wf : c.WellFormed) {i : Nat} (hi : i < c.length) : d.present i = c.present i := by
  rcases Nat.eq_zero_or_pos c.nullCount with none | some
  · rw [wf.counted.present_of_none none hi, present, own.validity?_of_none none]
  · rw [present, own.validity?_of_nulls wf some]
    simp only [own.offset, Nat.zero_add]
    exact (own.stored some).2 i hi

theorem stop_eq (own : Own c d) : d.stop = c.length := by rw [stop, own.offset, own.length, Nat.zero_add]

theorem counted (own : Own c d) (wf : c.WellFormed) : d.Counted := by
  have word := wf.word
  unfold stop at word
  rcases Nat.eq_zero_or_pos c.nullCount with none | some
  · rw [Counted, own.validity?_of_none none, own.nullCount]
    exact none
  · obtain ⟨size, bits⟩ := own.stored some
    have nulls := wf.nulls
    rw [Counted, own.validity?_of_nulls wf some]
    refine ⟨by rw [own.stop_eq, size], ?_⟩
    rw [own.offset, own.length, own.nullCount, wf.counted.nullCount_eq]
    have step : 0 + 8 < wordSize := by decide
    rw [bytesFor_eq] at size
    rw [Bitmap.countClear_eq_ok (by omega) step (by omega), Bitmap.clearIn]
    refine congrArg Except.ok (List.countP_congr fun i hi => ?_)
    rw [Nat.zero_add, bits i (List.mem_range.1 hi)]

/-! ### Offsets -/

theorem offsets_eq (own : Own c d) (mem : .offsets ∈ c.type.roles) :
    d.bytesOf .offsets = offsetBuffer c.ownOffsets := by
  have repacks := own.repacks
  unfold Repacks at repacks
  cases type : c.type <;> simp only [type] at repacks <;> simp [type, DataType.roles] at mem
  · exact repacks.1
  · exact repacks.1
  · exact repacks

theorem length_ownOffsets (some : c.length ≠ 0) : c.ownOffsets.length = c.length + 1 := by
  simp [ownOffsets, some]

theorem getElem_ownOffsets (some : c.length ≠ 0) {k : Nat} (hk : k < c.ownOffsets.length) :
    c.ownOffsets[k] = c.bound k - c.bound 0 := by
  simp [ownOffsets, some]

/-- The offsets of a packed column count from the first of the original ones. -/
theorem bound_eq (own : Own c d) (wf : c.WellFormed) (role : .offsets ∈ c.type.roles) {limit : Nat}
    (rising : c.Rising limit) (same : d.bytesOf .offsets = offsetBuffer c.ownOffsets) (some : c.length ≠ 0) {k : Nat}
    (hk : k ≤ c.length) : Readable (d.bytesOf .offsets) (d.offset + k) ∧ d.bound k = c.bound k - c.bound 0 := by
  have length := length_ownOffsets some
  have fits : offsetWidth * (c.length + 1) < wordSize := by
    have word := ((wf.room .offsets role (by decide)).offsets some).1
    unfold stop offsetWidth at *
    omega
  have inside : k < c.ownOffsets.length := by omega
  have value := getElem_ownOffsets some inside
  have small := rising.bound_lt hk
  have read := offsetEntry_offsetBuffer inside (by omega) (by rw [length]; exact fits)
  rw [← same, value] at read
  have := readable_of_ok read
  unfold bound
  rwa [own.offset, Nat.zero_add]

theorem rising (own : Own c d) (wf : c.WellFormed) (role : .offsets ∈ c.type.roles) {limit : Nat}
    (rising : c.Rising limit) (same : d.bytesOf .offsets = offsetBuffer c.ownOffsets) (some : c.length ≠ 0) :
    d.Rising c.span := by
  have bounds {k : Nat} (hk : k ≤ c.length) := own.bound_eq wf role rising same some hk
  refine ⟨fun k hk => (bounds (own.length ▸ hk)).1, fun k hk => ?_, ?_⟩
  · rw [own.length] at hk
    rw [(bounds (Nat.le_of_lt hk)).2, (bounds hk).2]
    exact Nat.sub_le_sub_right (rising.mono k hk) _
  · rw [own.length, (bounds (le_refl _)).2, span, if_neg some]

theorem piece_eq (own : Own c d) (wf : c.WellFormed) (role : .offsets ∈ c.type.roles) {limit : Nat}
    (rising : c.Rising limit) (same : d.bytesOf .offsets = offsetBuffer c.ownOffsets)
    (values : d.bytesOf .values = (c.bytesOf .values).extract c.first (c.first + c.span)) {i : Nat}
    (hi : i < c.length) : d.piece i = c.piece i := by
  have some : c.length ≠ 0 := by omega
  have low := (own.bound_eq wf role rising same some (k := i) (by omega)).2
  have high := (own.bound_eq wf role rising same some (k := i + 1) hi).2
  have start := rising.le_of_le (Nat.zero_le i) (by omega)
  have step := rising.mono i hi
  have stop := rising.le_of_le (show i + 1 ≤ c.length from hi) (le_refl _)
  rw [piece, piece, low, high, values, Array.extract_extract, first, span, if_neg some, if_neg some]
  congr 1 <;> omega

/-! ### Values of a fixed width -/

theorem wordAt_eq (own : Own c d) {p : Primitive}
    (values : d.bytesOf .values =
      (c.bytesOf .values).extract (c.offset * p.width) ((c.offset + c.length) * p.width)) {i : Nat}
    (hi : i < c.length) : d.wordAt p i = c.wordAt p i := by
  have stop : (c.offset + i) * p.width + p.width ≤ (c.offset + c.length) * p.width := by
    rw [← Nat.succ_mul]
    exact Nat.mul_le_mul_right _ (by omega)
  rw [wordAt, wordAt, values, own.offset, Nat.zero_add, Array.extract_extract]
  simp only [Nat.add_mul] at stop ⊢
  congr 1
  omega

theorem size_fixed (own : Own c d) (wf : c.WellFormed) {p : Primitive} (type : c.type = .fixed p) :
    (d.bytesOf .values).size = c.length * p.width := by
  have repacks := own.repacks
  simp only [Repacks, type] at repacks
  rw [repacks, Array.size_extract, Nat.min_eq_left (wf.room_words type).2, Nat.add_mul, Nat.add_sub_cancel_left]

/-! ## Packed columns are well formed -/

theorem room (own : Own c d) (wf : c.WellFormed) {role : Role} (mem : role ∈ c.type.roles) (other : role ≠ .validity) :
    d.Room role := by
  obtain ⟨least, enough, size⟩ := wf.room role mem other
  have le : c.length ≤ c.stop := Nat.le_add_left _ _
  obtain ⟨less, enough', -⟩ := DataType.leastLength?_mono le enough
  unfold Room
  rw [own.stop_eq, own.type]
  refine ⟨less, enough', ?_⟩
  have repacks := own.repacks
  unfold Repacks at repacks
  cases role with
  | validity => exact absurd rfl other
  | offsets =>
    rw [own.offsets_eq mem, size_offsetBuffer]
    rw [DataType.leastLength?] at enough'
    split at enough'
    · cases enough'
      exact Nat.zero_le _
    · rename_i some
      rw [length_ownOffsets some, (fitting?_eq_some.1 enough').2]
  | values =>
    cases type : c.type with
    | boolean =>
      simp only [type, DataType.leastLength?, Option.some.injEq] at repacks enough'
      rw [repacks.1, enough']
    | fixed p =>
      rw [type] at enough'
      rw [own.size_fixed wf type, (fitting?_eq_some.1 enough').2]
    | binary | utf8 | list _ | struct _ =>
      simp only [type, DataType.leastLength?, Option.some.injEq] at enough'
      omega

theorem wellFormed (own : Own c d) (wf : c.WellFormed) (children : d.children.map (·.type) = c.children.map (·.type))
    (items : ∀ item, c.type = .list item → d.itemCount = c.span)
    (members : ∀ fields, c.type = .struct fields → ∀ child ∈ d.children, c.length ≤ child.length) :
    d.WellFormed := by
  have word := wf.word
  have filled := wf.filled
  have repacks := own.repacks
  have stop := own.stop_eq
  refine ⟨by rw [own.buffers, own.type], by rw [children, own.type, wf.children],
    by rw [own.nullCount, own.length]; exact wf.nulls, by unfold Column.stop at *; omega,
    fun role mem other => own.room wf (own.type ▸ mem) other, own.counted wf, ?_⟩
  unfold Filled at *
  unfold Repacks at repacks
  rw [own.type]
  have inside (rising : c.length ≠ 0 → c.Rising (c.bytesOf .values).size) :
      c.first + c.span ≤ (c.bytesOf .values).size := (rebasedOffsets_eq wf.word rising).2
  cases type : c.type with
  | boolean => trivial
  | fixed p => trivial
  | binary =>
    simp only [type] at filled repacks
    intro some
    rw [own.length] at some
    have := own.rising wf (by simp [type, DataType.roles]) (filled some) repacks.1 some
    rwa [repacks.2, Array.size_extract, Nat.min_eq_left (inside filled), Nat.add_sub_cancel_left]
  | utf8 =>
    simp only [type] at filled repacks
    have role : .offsets ∈ c.type.roles := by simp [type, DataType.roles]
    refine ⟨fun some => ?_, fun i hi valid => ?_⟩
    · rw [own.length] at some
      have := own.rising wf role (filled.1 some) repacks.1 some
      rwa [repacks.2, Array.size_extract, Nat.min_eq_left (inside filled.1), Nat.add_sub_cancel_left]
    · rw [own.length] at hi
      rw [own.piece_eq wf role (filled.1 (by omega)) repacks.1 repacks.2 hi]
      exact filled.2 i hi (by rwa [← own.present_eq wf hi])
  | list item =>
    simp only [type] at filled repacks
    intro some
    rw [own.length] at some
    rw [items item type]
    exact own.rising wf (by simp [type, DataType.roles]) (filled some) repacks some
  | struct fields =>
    rw [stop]
    exact members fields type

theorem addressable (own : Own c d) (wf : c.WellFormed) (small : c.Addressable)
    (children : ∀ child ∈ d.children, child.Addressable) : d.Addressable := by
  refine .intro (fun validity found => ?_) children
  rcases Nat.eq_zero_or_pos c.nullCount with none | some
  · rw [own.validity?_of_none none] at found
    cases found
  · rw [own.validity?_of_nulls wf some] at found
    cases found
    have counted := wf.counted
    unfold Counted at counted
    cases bitmap : c.validity? with
    | none =>
      simp only [bitmap] at counted
      omega
    | some validity =>
      simp only [bitmap] at counted
      have room := small.here validity bitmap
      have le := bytesFor_mono (show c.length ≤ c.stop from Nat.le_add_left _ _)
      rw [(own.stored some).1]
      omega

theorem span_eq (own : Own c d) (wf : c.WellFormed) (role : .offsets ∈ c.type.roles) {limit : Nat}
    (rising : c.length ≠ 0 → c.Rising limit) (same : d.bytesOf .offsets = offsetBuffer c.ownOffsets) :
    d.span = c.span := by
  unfold span
  rw [own.length]
  split
  · rfl
  · rename_i some
    have first := (own.bound_eq wf role (rising some) same some (Nat.zero_le _)).2
    have last := (own.bound_eq wf role (rising some) same some (le_refl _)).2
    omega

end Own

/-! ## Packing keeps the values -/

/-- A column without spare elements: it starts at its first position, and below it there is just what its
elements cover. -/
structure Compact (c : Column) : Prop where
  offset : c.offset = 0
  items : ∀ item, c.type = .list item → ∀ child ∈ c.children, child.length = c.span
  members : ∀ fields, c.type = .struct fields → ∀ child ∈ c.children, child.length = c.length

/-- What a packed column has in common with the original, a column of that type. -/
structure Kept (t : DataType) (c d : Column) : Prop where
  sound : d.Sound
  addressable : c.Addressable → d.Addressable
  compact : Everywhere Compact d
  content : ∀ i < c.length, content t d i = content t c i

theorem Packs.own {t : DataType} {c d : Column} (h : Packs t c d) : Own c d := by
  cases t <;> simp only [Packs] at h <;> exact h.1

theorem Kept.cell {t : DataType} {c d : Column} (h : Kept t c d) (own : Own c d) (wf : c.WellFormed) {i : Nat}
    (hi : i < c.length) : cell t d i = cell t c i := by
  rw [Column.cell, own.present_eq wf hi, h.content i hi, Column.cell]

/-- The values of a list, if those of its child are kept. -/
theorem Own.content_list_eq {c d child packed : Column} {item : Field} (own : Own c d) (wf : c.WellFormed)
    (type : c.type = .list item) (children : c.children = [child]) (packedChildren : d.children = [packed])
    (rising : c.Rising child.length) (same : d.bytesOf .offsets = offsetBuffer c.ownOffsets)
    (cells : ∀ k < c.span, cell item.type packed k = cell item.type child (c.first + k)) {i : Nat}
    (hi : i < c.length) : content (.list item) d i = content (.list item) c i := by
  have role : .offsets ∈ c.type.roles := by simp [type, DataType.roles]
  have some : c.length ≠ 0 := by omega
  have low := (own.bound_eq wf role rising same some (k := i) (by omega)).2
  have high := (own.bound_eq wf role rising same some (k := i + 1) hi).2
  have start := rising.le_of_le (Nat.zero_le i) (by omega)
  have step := rising.mono i hi
  have stop := rising.le_of_le (show i + 1 ≤ c.length from hi) (le_refl _)
  rw [content_list (show d.children.head? = .some packed by rw [packedChildren]; rfl),
    content_list (show c.children.head? = .some child by rw [children]; rfl), Value.list.injEq, range_map_eq]
  refine ⟨by omega, fun k hk => ?_⟩
  rw [cells _ (by rw [span, if_neg some]; omega), low, first, if_neg some]
  congr 1
  omega

/-- The children of a struct, if packing keeps the values of each. -/
theorem packsAll_kept {members : List Field} {start count : Nat} {children packed : List Column}
    (types : children.map (·.type) = members.map (·.type)) (all : PacksAll members start count children packed)
    (each : ∀ f ∈ members, ∀ child ∈ children, ∀ part d, child.type = f.type → child.slice start count = .ok part →
      Packs f.type part d → part.WellFormed ∧ Kept f.type part d) :
    packed.map (·.type) = children.map (·.type) ∧
      (∀ d ∈ packed, d.length = count ∧ d.Sound ∧ Everywhere Compact d ∧
        ((∀ child ∈ children, child.Addressable) → d.Addressable)) ∧
      ∀ i < count, contents members packed i = contents members children (start + i) := by
  induction members generalizing children packed with
  | nil =>
    rw [List.map_nil, List.map_eq_nil_iff] at types
    subst types
    cases packed with
    | nil => simp [contents]
    | cons _ _ => simp [PacksAll] at all
  | cons f members ih =>
    obtain ⟨child, children, rfl, type, types⟩ := List.map_eq_cons_iff.1 types
    cases packed with
    | nil => simp [PacksAll] at all
    | cons d packed =>
      obtain ⟨⟨part, sliced, packs⟩, all⟩ := all
      obtain ⟨wf, kept⟩ := each f (by simp) child (by simp) part d type sliced packs
      obtain ⟨types', rest, values⟩ := ih types all fun g hg c hc => each g (by simp [hg]) c (by simp [hc])
      obtain ⟨rfl, -, -⟩ := slice_ok sliced
      have own := packs.own
      have others : ∀ d ∈ packed, d.length = count ∧ d.Sound ∧ Everywhere Compact d ∧
          ((∀ c ∈ child :: children, c.Addressable) → d.Addressable) := by
        intro d hd
        obtain ⟨length, sound, compact, small⟩ := rest d hd
        exact ⟨length, sound, compact, fun each => small (List.forall_mem_cons.1 each).2⟩
      refine ⟨by simp [types', own.type], List.forall_mem_cons.2 ⟨⟨own.length, kept.sound, kept.compact,
        fun each => kept.addressable ((List.forall_mem_cons.1 each).1.part _ _)⟩, others⟩, fun i hi => ?_⟩
      rw [contents_cons, contents_cons, values i hi, kept.cell own wf hi, cell_part]

/-- Packed columns are sound, and have the values of the columns they were packed from. -/
theorem Packs.kept (t : DataType) : ∀ c d : Column, c.Sound → c.type = t → Packs t c d → Kept t c d := by
  induction t using DataType.induct with
  | flat t isFlat =>
    intro c d sound type packs
    have own := packs.own
    have wf := sound.here
    have none : c.children = [] ∧ d.children = [] := by
      cases t <;> first | exact packs.2 | cases isFlat
    have filled := wf.filled
    have repacks := own.repacks
    refine ⟨.intro (own.wellFormed wf (by rw [none.1, none.2]) ?_ ?_) (by simp [none.2]),
      fun small => own.addressable wf small (by simp [none.2]), .intro ⟨own.offset, ?_, ?_⟩ (by simp [none.2]), ?_⟩
    · intro item list
      rw [← type, list] at isFlat
      cases isFlat
    · simp [none.2]
    · simp [none.2]
    · simp [none.2]
    · intro i hi
      cases t with
      | boolean =>
        simp only [Repacks, type] at repacks
        rw [content, content, own.offset, Nat.zero_add, repacks.2 i hi]
      | fixed p =>
        simp only [Repacks, type] at repacks
        rw [content, content, own.wordAt_eq repacks hi]
      | binary =>
        simp only [Repacks, type] at repacks
        simp only [Filled, type] at filled
        rw [content, content, own.piece_eq wf (by simp [type, DataType.roles]) (filled (by omega)) repacks.1
          repacks.2 hi]
      | utf8 =>
        simp only [Repacks, type] at repacks
        simp only [Filled, type] at filled
        rw [content, content, own.piece_eq wf (by simp [type, DataType.roles]) (filled.1 (by omega)) repacks.1
          repacks.2 hi]
      | list _ => cases isFlat
      | struct _ => cases isFlat
  | list item ih =>
    intro c d sound type packs
    have own := packs.own
    have wf := sound.here
    have repacks := own.repacks
    simp only [Repacks, type] at repacks
    have role : .offsets ∈ c.type.roles := by simp [type, DataType.roles]
    obtain ⟨child, children, childType, childSound, rising⟩ := sound.children_of_list type
    obtain ⟨-, child', part, packed, children', packedChildren, sliced, packs⟩ := packs
    obtain rfl : child' = child := by simpa [children] using children'.symm
    obtain ⟨rfl, inside, -⟩ := slice_ok sliced
    -- What was packed is a slice of the child, for which the hypothesis on the type holds all the same.
    have kept := ih _ packed (childSound.slice sliced) childType packs
    have length : packed.length = c.span := packs.own.length
    have packedType : packed.type = child'.type := packs.own.type
    have only : ∀ x ∈ d.children, x = packed := by simp [packedChildren]
    refine ⟨.intro (own.wellFormed wf (by simp [children, packedChildren, packedType]) ?_ ?_) ?_,
      fun small => own.addressable wf small ?_, .intro ⟨own.offset, ?_, ?_⟩ ?_, ?_⟩
    · intro _ _
      rw [itemCount, packedChildren]
      exact length
    · intro fields struct
      simp [type] at struct
    · exact fun x hx => only x hx ▸ kept.sound
    · exact fun x hx => only x hx ▸ kept.addressable ((small.child (by simp [children])).part _ _)
    · intro _ _ x hx
      rw [own.span_eq wf role rising repacks, only x hx, length]
    · intro fields struct
      rw [own.type, type] at struct
      cases struct
    · exact fun x hx => only x hx ▸ kept.compact
    · intro i hi
      have some : c.length ≠ 0 := by omega
      have wf' := (childSound.slice sliced).here
      refine own.content_list_eq wf type children packedChildren (rising some) repacks (fun k hk => ?_) hi
      rw [kept.cell packs.own wf' hk, cell_part]
  | struct members ih =>
    intro c d sound type packs
    have own := packs.own
    have wf := sound.here
    have types := wf.children
    simp only [type, DataType.children] at types
    obtain ⟨types', each, values⟩ := packsAll_kept types packs.2 fun f hf child hc part d childType sliced packs => by
      obtain ⟨rfl, -, -⟩ := slice_ok sliced
      have partSound := (sound.child hc).slice sliced
      exact ⟨partSound.here, ih f hf _ d partSound childType packs⟩
    refine ⟨.intro (own.wellFormed wf types' ?_ ?_) fun child hc => (each child hc).2.1,
      fun small => own.addressable wf small fun child hc => (each child hc).2.2.2 fun _ mem => small.child mem,
      .intro ⟨own.offset, ?_, ?_⟩ fun child hc => (each child hc).2.2.1, ?_⟩
    · intro item list
      simp [type] at list
    · exact fun _ _ child hc => (each child hc).1.ge
    · intro item list
      rw [own.type, type] at list
      cases list
    · exact fun _ _ child hc => (each child hc).1.trans own.length.symm
    · intro i hi
      rw [content_struct, content_struct, own.offset, Nat.zero_add, values i hi]

/-- A packed column equals the original, from either side. -/
theorem Packs.equal_eq {c d : Column} (packs : Packs c.type c d) (sound : c.Sound) (addressable : c.Addressable) :
    d.equal c = .ok true ∧ c.equal d = .ok true := by
  have kept := Packs.kept c.type c d sound rfl packs
  have small := kept.addressable addressable
  have own := packs.own
  have cells : ∀ i < c.length, cell d.type d i = cell c.type c i := by
    intro i hi
    rw [own.type]
    exact kept.cell own sound.here hi
  constructor
  · refine (equal_decides kept.sound sound small addressable).eq_true ⟨own.type, own.length, fun i hi => ?_⟩
    exact cells i (own.length ▸ hi)
  · refine (equal_decides sound kept.sound addressable small).eq_true ⟨own.type.symm, own.length.symm, ?_⟩
    exact fun i hi => (cells i hi).symm

end ColumnStream.Column
