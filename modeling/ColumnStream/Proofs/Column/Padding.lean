/-
Padding and spare bits of a column. `Agree` says what the elements of a column without an offset cover: bits of the
bitmap, offsets, and bits or bytes of the values. Two columns of one shape that agree there are checked alike, with the
same verdict or for the same cause, and if they pass, they hold the same values.
-/
import ColumnStream.Proofs.Column.Total
import ColumnStream.Proofs.Column.Values

namespace ColumnStream

/-! ## Parts of buffers -/

theorem Buffer.extract_congr {a b : Buffer} {n start stop : Nat} (same : ∀ j < n, b[j]? = a[j]?) (le : stop ≤ n) :
    b.extract start stop = a.extract start stop := by
  have within (x : Buffer) (i : Nat) :
      (x.extract start stop)[i]? = if i < stop - start then x[start + i]? else none := by
    rw [Array.getElem?_extract]
    by_cases inside : i < stop - start
    · rw [if_pos inside]
      split
      · rfl
      · rw [Array.getElem?_eq_none (by omega)]
    · rw [if_neg inside, if_neg (by omega)]
  apply Array.ext_getElem?
  intro i
  rw [within, within]
  split
  · exact same _ (by omega)
  · rfl

theorem Bitmap.clearIn_congr {a b : Buffer} {offset count : Nat}
    (same : ∀ i < count, isSet b (offset + i) = isSet a (offset + i)) :
    clearIn b offset count = clearIn a offset count :=
  List.countP_congr fun i hi => by rw [same i (List.mem_range.1 hi)]

namespace Column

/-- An offset is read from the bytes up to its own last one. -/
theorem offsetEntry_congr {a b : Buffer} {position : Nat} (size : b.size = a.size)
    (same : ∀ j < offsetWidth * (position + 1), b[j]? = a[j]?) : offsetEntry b position = offsetEntry a position := by
  rw [offsetEntry, offsetEntry]
  refine bind_congr_ok rfl fun start hstart => bind_congr_ok rfl fun stop hstop => ?_
  obtain ⟨rfl, -⟩ := Word.mul_ok hstart
  obtain ⟨rfl, -⟩ := Word.add_ok hstop
  have le : position * offsetWidth + offsetWidth ≤ offsetWidth * (position + 1) := by
    rw [Nat.mul_succ, Nat.mul_comm]
  rw [size, Buffer.extract_congr same le]

theorem lastOffset_congr {a b : Buffer} {position previous count : Nat}
    (same : ∀ k < count, offsetEntry b (position + k) = offsetEntry a (position + k)) :
    lastOffset b position previous count = lastOffset a position previous count := by
  induction count generalizing position previous with
  | zero => rfl
  | succ count ih =>
    rw [lastOffset, lastOffset]
    refine bind_congr_ok (same 0 (Nat.succ_pos _)) fun current _ => ?_
    have rest : lastOffset b (position + 1) current count = lastOffset a (position + 1) current count :=
      ih fun k hk => by
        have := same (k + 1) (by omega)
        rwa [show position + (k + 1) = position + 1 + k by omega] at this
    rw [rest]

/-! ## What elements cover -/

/-- The columns agree in all that the elements of `c` cover, if they start at the first position: the bits of the
bitmap, the offsets, and the bits or bytes of the values, those of variable length up to the last offset. -/
structure Agree (c d : Column) : Prop where
  validity : ∀ i < c.length, Bitmap.isSet (d.bytesOf .validity) i = Bitmap.isSet (c.bytesOf .validity) i
  offsets : .offsets ∈ c.type.roles → c.length ≠ 0 →
    ∀ j < offsetWidth * (c.length + 1), (d.bytesOf .offsets)[j]? = (c.bytesOf .offsets)[j]?
  bits : c.type = .boolean → ∀ i < c.length, Bitmap.isSet (d.bytesOf .values) i = Bitmap.isSet (c.bytesOf .values) i
  words : ∀ p, c.type = .fixed p → ∀ j < c.length * p.width, (d.bytesOf .values)[j]? = (c.bytesOf .values)[j]?
  bytes : c.type = .binary ∨ c.type = .utf8 → c.length ≠ 0 →
    ∀ j < c.bound c.length, (d.bytesOf .values)[j]? = (c.bytesOf .values)[j]?

/-- Two columns that start at their first position and have one shape, with buffers of the same sizes, and that differ
at most in bits and bytes which no element covers. -/
structure Twins (c d : Column) : Prop where
  type : d.type = c.type
  length : d.length = c.length
  nullCount : d.nullCount = c.nullCount
  start : c.offset = 0 ∧ d.offset = 0
  sizes : d.buffers.map Array.size = c.buffers.map Array.size
  children : d.children.map (fun e => (e.type, e.length)) = c.children.map fun e => (e.type, e.length)
  agree : c.Agree d

/-- `r` holds of two columns and of those below them, side by side. -/
inductive Throughout (r : Column → Column → Prop) : Column → Column → Prop
  | intro {c d : Column} (here : r c d) (length : c.children.length = d.children.length)
      (children : ∀ pair ∈ c.children.zip d.children, Throughout r pair.1 pair.2) : Throughout r c d

namespace Throughout

variable {r : Column → Column → Prop} {c d : Column}

theorem here : Throughout r c d → r c d
  | intro here _ _ => here

theorem children : Throughout r c d → List.Forall₂ (Throughout r) c.children d.children
  | intro _ length children => List.forall₂_iff_zip.2 ⟨length, fun mem => children _ mem⟩

theorem of_children (here : r c d) (children : List.Forall₂ (Throughout r) c.children d.children) :
    Throughout r c d := by
  obtain ⟨length, each⟩ := List.forall₂_iff_zip.1 children
  exact intro here length fun pair mem => each mem

end Throughout

namespace Twins

variable {c d : Column}

theorem stop (h : Twins c d) : c.stop = c.length ∧ d.stop = c.stop := by
  obtain ⟨first, first'⟩ := h.start
  unfold Column.stop
  rw [first, first', h.length, Nat.zero_add]
  exact ⟨rfl, rfl⟩

theorem size (h : Twins c d) (role : Role) : (d.bytesOf role).size = (c.bytesOf role).size := by
  unfold bytesOf buffer?
  rw [h.type]
  cases c.type.roles.findIdx? (· == role) with
  | none => rfl
  | some k =>
    have sized (found : Option Buffer) : (found.getD #[]).size = (found.map Array.size).getD 0 := by cases found <;> rfl
    rw [Option.bind_some, Option.bind_some, sized, sized, ← List.getElem?_map, ← List.getElem?_map, h.sizes]

theorem count (h : Twins c d) : d.buffers.length = c.buffers.length := by
  simpa using congrArg List.length h.sizes

theorem isEmpty (h : Twins c d) (role : Role) : (d.bytesOf role).isEmpty = (c.bytesOf role).isEmpty := by
  rw [Array.isEmpty, Array.isEmpty, h.size]

/-! ### Single elements -/

theorem present_eq (h : Twins c d) (count : c.buffers.length = c.type.roles.length) {i : Nat} (hi : i < c.length) :
    d.present i = c.present i := by
  obtain ⟨first, first'⟩ := h.start
  unfold present
  rw [validity?_eq count, validity?_eq (by rw [h.count, h.type, count]), h.isEmpty, first, first', Nat.zero_add]
  by_cases absent : (c.bytesOf .validity).isEmpty = true
  · rw [if_pos absent, if_pos absent]
  · rw [if_neg absent, if_neg absent]
    exact h.agree.validity i hi

theorem offsetEntry_eq (h : Twins c d) (role : .offsets ∈ c.type.roles) (some : c.length ≠ 0) {k : Nat}
    (hk : k ≤ c.length) : offsetEntry (d.bytesOf .offsets) k = offsetEntry (c.bytesOf .offsets) k := by
  have le : offsetWidth * (k + 1) ≤ offsetWidth * (c.length + 1) := Nat.mul_le_mul_left _ (by omega)
  exact offsetEntry_congr (h.size _) fun j hj => h.agree.offsets role some j (by omega)

theorem bound_eq (h : Twins c d) (role : .offsets ∈ c.type.roles) (some : c.length ≠ 0) {k : Nat}
    (hk : k ≤ c.length) : d.bound k = c.bound k := by
  obtain ⟨first, first'⟩ := h.start
  unfold bound entry
  rw [first, first', Nat.zero_add, h.offsetEntry_eq role some hk]

theorem piece_eq (h : Twins c d) (variable_ : c.type = .binary ∨ c.type = .utf8) {limit : Nat}
    (rising : c.Rising limit) {i : Nat} (hi : i < c.length) : d.piece i = c.piece i := by
  have role : .offsets ∈ c.type.roles := by rcases variable_ with type | type <;> simp [type, DataType.roles]
  have some : c.length ≠ 0 := by omega
  unfold piece
  rw [h.bound_eq role some (by omega), h.bound_eq role some hi]
  exact Buffer.extract_congr (h.agree.bytes variable_ some) (rising.le_of_le hi (le_refl _))

end Twins

/-! ## Checks -/

theorem checkChildTypes_congr {cs ds : List Column} {fields : List Field} (types : ds.map (·.type) = cs.map (·.type)) :
    checkChildTypes ds fields = checkChildTypes cs fields := by
  induction cs generalizing ds fields with
  | nil =>
    rw [List.map_nil, List.map_eq_nil_iff] at types
    rw [types]
  | cons c cs ih =>
    obtain ⟨d, ds, rfl, type, types⟩ := List.map_eq_cons_iff.1 types
    cases fields with
    | nil => rfl
    | cons f fields => rw [checkChildTypes, checkChildTypes, type, ih types]

theorem checkMembers_congr {c d : Column} {cs ds : List Column} (stop : d.stop = c.stop)
    (lengths : ds.map (·.length) = cs.map (·.length)) : d.checkMembers ds = c.checkMembers cs := by
  induction cs generalizing ds with
  | nil =>
    rw [List.map_nil, List.map_eq_nil_iff] at lengths
    rw [lengths]
    rfl
  | cons e cs ih =>
    obtain ⟨e', ds, rfl, length, lengths⟩ := List.map_eq_cons_iff.1 lengths
    rw [checkMembers, checkMembers, stop, length, ih lengths]

namespace Twins

variable {c d : Column}

theorem checkBuffers_eq (h : Twins c d) {own own' : List Buffer} (sizes : own'.map Array.size = own.map Array.size)
    (roles : List Role) : d.checkBuffers own' roles = c.checkBuffers own roles := by
  induction own generalizing own' roles with
  | nil =>
    rw [List.map_nil, List.map_eq_nil_iff] at sizes
    rw [sizes]
    cases roles <;> rfl
  | cons b own ih =>
    obtain ⟨b', own', rfl, size, sizes⟩ := List.map_eq_cons_iff.1 sizes
    cases roles with
    | nil => rfl
    | cons role roles =>
      have first : d.checkBuffer b' role = c.checkBuffer b role := by
        rw [checkBuffer, checkBuffer, Array.isEmpty, Array.isEmpty, size, h.type, h.nullCount, h.stop.2]
      rw [checkBuffers, checkBuffers, first, ih sizes]

/-- Nulls are counted among the bits that are covered, once the bitmap is known to be long enough. -/
theorem checkNulls_eq (h : Twins c d) (count : c.buffers.length = c.type.roles.length) (word : c.stop < wordSize)
    (long : c.checkBuffer (c.bytesOf .validity) .validity = .ok ()) : d.checkNulls = c.checkNulls := by
  obtain ⟨first, first'⟩ := h.start
  have found := validity?_eq count
  have found' := validity?_eq (c := d) (by rw [h.count, h.type, count])
  rw [h.isEmpty] at found'
  unfold checkNulls
  split at found
  · rw [found, found', if_pos ‹_›]
  · have enough := bytesFor_le_of_checkBuffer count long found
    have step : 0 + 8 < wordSize := by decide
    have size := h.size .validity
    rw [bytesFor_eq, h.stop.1] at enough
    rw [h.stop.1] at word
    rw [found, found', if_neg ‹_›]
    simp only
    rw [first, first', h.length, h.nullCount, Bitmap.countClear_eq_ok (by omega) step (by omega),
      Bitmap.countClear_eq_ok (by omega) step (by omega), Bitmap.clearIn_congr fun i hi => ?_]
    rw [Nat.zero_add]
    exact h.agree.validity i hi

theorem checkOffsets_eq (h : Twins c d) (role : .offsets ∈ c.type.roles) (limit : Nat) :
    d.checkOffsets limit = c.checkOffsets limit := by
  obtain ⟨first, first'⟩ := h.start
  unfold checkOffsets
  rw [h.length]
  by_cases some : c.length = 0
  · rw [if_pos some, if_pos some]
  · have entries {k : Nat} (hk : k ≤ c.length) := h.offsetEntry_eq role some hk
    have rest (previous : Nat) : lastOffset (d.bytesOf .offsets) (0 + 1) previous c.length =
        lastOffset (c.bytesOf .offsets) (0 + 1) previous c.length :=
      lastOffset_congr fun k hk => entries (by omega)
    rw [if_neg some, if_neg some, first, first']
    simp only [entries (Nat.zero_le _), rest]

theorem checkTexts_eq (h : Twins c d) (type : c.type = .utf8) (counted : c.Counted ∧ d.Counted)
    (word : c.stop < wordSize)
    (rising : c.length ≠ 0 → c.Rising (c.bytesOf .values).size ∧ d.Rising (d.bytesOf .values).size)
    (count : c.buffers.length = c.type.roles.length) {i n : Nat} (inside : i + n ≤ c.length) :
    d.checkTexts i n = c.checkTexts i n := by
  have word' : d.stop < wordSize := h.stop.2 ▸ word
  induction n generalizing i with
  | zero => rfl
  | succ n ih =>
    have here : i < c.length := by omega
    have here' : i < d.length := h.length ▸ here
    obtain ⟨own, own'⟩ := rising (by omega)
    have first : d.checkText i = c.checkText i := by
      rw [checkText, checkText, unlessNull_eq counted.1 word here, unlessNull_eq counted.2 word' here',
        h.present_eq count here, variableBytes_eq word own here, variableBytes_eq word' own' here',
        h.piece_eq (.inr type) own here]
    rw [checkTexts, checkTexts, first, ih (by omega)]

theorem checkContents_eq (h : Twins c d) (counted : c.Counted ∧ d.Counted) (word : c.stop < wordSize)
    (count : c.buffers.length = c.type.roles.length) : d.checkContents = c.checkContents := by
  have lengths := congrArg (List.map Prod.snd) h.children
  simp only [List.map_map, Function.comp_def] at lengths
  unfold checkContents
  rw [h.type, h.size]
  cases type : c.type with
  | boolean => rfl
  | fixed p => rfl
  | binary => exact h.checkOffsets_eq (by simp [type, DataType.roles]) _
  | utf8 =>
    have offsets := h.checkOffsets_eq (by simp [type, DataType.roles]) (c.bytesOf .values).size
    simp only
    refine bind_congr_ok offsets fun _ checked => ?_
    have rising := checkOffsets_eq_ok.1 checked
    have rising' := checkOffsets_eq_ok.1 (offsets.trans checked)
    rw [h.length] at rising' ⊢
    exact h.checkTexts_eq type counted word (fun some => ⟨rising some, h.size .values ▸ rising' some⟩) count (by omega)
  | list item =>
    have limit : (d.children.head?.map (·.length)).getD 0 = (c.children.head?.map (·.length)).getD 0 := by
      rw [← List.head?_map, ← List.head?_map, lengths]
    simp only [limit]
    exact h.checkOffsets_eq (by simp [type, DataType.roles]) _
  | struct members => exact checkMembers_congr h.stop.2 lengths

/-- The check asks nothing of bits and bytes that no element covers. -/
theorem check_eq (h : Twins c d) : d.check = c.check := by
  have types := congrArg (List.map Prod.fst) h.children
  simp only [List.map_map, Function.comp_def] at types
  have shape : d.checkShape = c.checkShape := by
    have count := congrArg List.length types
    rw [List.length_map, List.length_map] at count
    rw [checkShape, checkShape, h.type, h.count, count, checkChildTypes_congr types]
  have extent : d.checkExtent = c.checkExtent := by
    rw [checkExtent, checkExtent, h.length, h.nullCount, h.stop.2, h.start.1, h.start.2]
  have buffers : d.checkBuffers d.buffers d.type.roles = c.checkBuffers c.buffers c.type.roles := by
    rw [h.type, h.checkBuffers_eq h.sizes]
  -- The later stages are alike only where the earlier ones passed: they count and read what is known to be there.
  unfold check
  refine bind_congr_ok shape fun _ shaped => bind_congr_ok extent fun _ within => bind_congr_ok buffers fun _ long => ?_
  obtain ⟨count, -⟩ := checkShape_eq_ok.1 shaped
  obtain ⟨count', -⟩ := checkShape_eq_ok.1 (shape.trans shaped)
  obtain ⟨-, word⟩ := checkExtent_eq_ok.1 within
  have long' := buffers.trans long
  rw [buffers_eq count, checkBuffers_eq_ok] at long
  rw [buffers_eq count', checkBuffers_eq_ok] at long'
  have bitmap := long _ (roles_validity _)
  have bitmap' := long' _ (roles_validity _)
  have nulls := h.checkNulls_eq count word bitmap
  refine bind_congr_ok nulls fun _ marked => h.checkContents_eq ⟨?_, ?_⟩ word count
  · exact (checkValidity_eq_ok count).1 ⟨bitmap, marked⟩
  · exact (checkValidity_eq_ok count').1 ⟨bitmap', nulls.trans marked⟩

end Twins

theorem inStep_assemble {type : DataType} {length nulls : Nat} {own own' : List Buffer}
    {children children' : List Column}
    (twins : Twins ⟨type, length, nulls, 0, own, children⟩ ⟨type, length, nulls, 0, own', children'⟩) :
    InStep (fun _ _ => True) (assemble type length nulls 0 own children)
      (assemble type length nulls 0 own' children') := by
  unfold assemble
  simp only
  rw [twins.check_eq]
  exact (InStep.refl _).bind fun _ _ _ _ _ => trivial

/-! ## Cells -/

theorem contents_congr {members : List Field} {cs ds : List Column} {position : Nat}
    (types : cs.map (·.type) = members.map (·.type))
    (same : List.Forall₂ (fun c d => cell c.type d position = cell c.type c position) cs ds) :
    contents members ds position = contents members cs position := by
  induction same generalizing members with
  | nil =>
    cases members <;> rfl
  | @cons c d cs ds first _ ih =>
    cases members with
    | nil => simp at types
    | cons f members =>
      obtain ⟨type, types⟩ := List.cons.inj types
      rw [contents_cons, contents_cons, ih types, ← show c.type = f.type from type, first]

/-- The cells of a column depend on nothing but what its elements cover, down to the last column below. -/
theorem Throughout.cell_eq {c d : Column} (h : Throughout Twins c d) : c.Sound → ∀ i < c.length,
    cell c.type d i = cell c.type c i := by
  induction h with
  | @intro c d twins count _ ih =>
    intro sound i hi
    have wf := sound.here
    obtain ⟨first, first'⟩ := twins.start
    refine cell_eq_cell.2 ⟨twins.present_eq wf.buffers hi, fun _ _ => ?_⟩
    cases type : c.type with
    | boolean => rw [content, content, first, first', Nat.zero_add, twins.agree.bits type i hi]
    | fixed p =>
      have le : i * p.width + p.width ≤ c.length * p.width := by
        rw [← Nat.succ_mul]
        exact Nat.mul_le_mul_right _ hi
      rw [content, content, wordAt, wordAt, first, first', Nat.zero_add,
        Buffer.extract_congr (twins.agree.words p type) le]
    | binary => rw [content, content, twins.piece_eq (.inl type) (wf.rising_values (.inl type) (by omega)) hi]
    | utf8 => rw [content, content, twins.piece_eq (.inr type) (wf.rising_values (.inr type) (by omega)) hi]
    | list item =>
      have role : .offsets ∈ c.type.roles := by simp [type, DataType.roles]
      obtain ⟨child, children, childType, childSound, rising⟩ := sound.children_of_list type
      obtain ⟨child', children'⟩ : ∃ child', d.children = [child'] :=
        List.length_eq_one_iff.1 (by rw [← count, children]; rfl)
      have head : c.children.head? = some child := by rw [children]; rfl
      have head' : d.children.head? = some child' := by rw [children']; rfl
      have inside := (rising (by omega)).bound_le (k := i + 1) hi
      have below : ∀ k < child.length, cell child.type child' k = cell child.type child k :=
        ih (child, child') (by simp [children, children']) childSound
      rw [content_list head, content_list head', twins.bound_eq role (by omega) (k := i) (by omega),
        twins.bound_eq role (by omega) (k := i + 1) hi]
      refine congrArg Value.list (List.map_congr_left fun k hk => ?_)
      have hk := List.mem_range.1 hk
      rw [← childType]
      exact below _ (by omega)
    | struct members =>
      have types := wf.children
      have filled := wf.filled
      simp only [type, DataType.children] at types
      simp only [Filled, type] at filled
      rw [twins.stop.1] at filled
      rw [content_struct, content_struct, first, first', Nat.zero_add]
      refine congrArg Value.struct (contents_congr types (List.forall₂_iff_zip.2 ⟨count, fun {child child'} mem => ?_⟩))
      have held := (List.of_mem_zip mem).1
      exact ih (child, child') mem (sound.child held) i (Nat.lt_of_lt_of_le hi (filled child held))

theorem Throughout.cells_eq {c d : Column} (h : Throughout Twins c d) (sound : c.Sound) : d.cells = c.cells := by
  rw [cells, cells, h.here.type, h.here.length]
  exact List.map_congr_left fun i hi => h.cell_eq sound i (List.mem_range.1 hi)

end Column
end ColumnStream
