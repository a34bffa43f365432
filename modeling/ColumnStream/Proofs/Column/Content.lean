/-
What a column means: the value of each element, wherever its bytes are stored. Equality of columns
decides equality of these values, and a slice has the values of its range.
-/
import ColumnStream.Column.Equal
import ColumnStream.Column.Value
import ColumnStream.Proofs.Column.Slice

namespace ColumnStream

/-- Induction on a type, with the hypothesis for the types right below it. -/
@[elab_as_elim]
theorem DataType.induct {motive : DataType → Prop} (flat : ∀ t, t.isNested = false → motive t)
    (list : ∀ item, motive item.type → motive (.list item))
    (struct : ∀ members, (∀ f ∈ members, motive f.type) → motive (.struct members)) (t : DataType) : motive t :=
  @DataType.rec motive (fun f => motive f.type) (fun fs => ∀ f ∈ fs, motive f.type)
    (flat _ rfl) (fun _ => flat _ rfl) (flat _ rfl) (flat _ rfl) list struct
    (fun _ _ _ h => h) (fun _ h => (nomatch h)) (fun _ _ h hs => List.forall_mem_cons.2 ⟨h, hs⟩) t

/-- Induction on a type, with the hypothesis for the types of its children. -/
@[elab_as_elim]
theorem DataType.inductChildren {motive : DataType → Prop}
    (step : ∀ t, (∀ f ∈ t.children, motive f.type) → motive t) (t : DataType) : motive t := by
  induction t using DataType.induct with
  | flat t isFlat =>
    have none : t.children = [] := by cases t <;> first | rfl | cases isFlat
    exact step t (by simp [none])
  | list item ih => exact step _ fun f hf => List.mem_singleton.1 hf ▸ ih
  | struct members ih => exact step _ ih

namespace Column

/-! ## Values -/

/-- The stored bytes of element `i`, for values of a fixed width. -/
def wordAt (c : Column) (p : Primitive) (i : Nat) : Buffer :=
  (c.bytesOf .values).extract ((c.offset + i) * p.width) ((c.offset + i) * p.width + p.width)

mutual
/-- What element `i` of a column of that type holds, if it is not null. -/
def content : DataType → Column → Nat → Value
  | .boolean, c, i => .bool (Bitmap.isSet (c.bytesOf .values) (c.offset + i))
  | .fixed p, c, i => .number (p.decode (c.wordAt p i).toList)
  | .binary, c, i | .utf8, c, i => .bytes (c.piece i)
  | .list ⟨_, t, _⟩, c, i =>
    .list (match c.children.head? with
      | some child => (List.range (c.bound (i + 1) - c.bound i)).map fun k =>
          if child.present (c.bound i + k) then content t child (c.bound i + k) else .null
      | none => [])
  | .struct members, c, i => .struct (contents members c.children (c.offset + i))

/-- The values at `position` of the children, one for each member. -/
def contents : List Field → List Column → Nat → List Value
  | ⟨_, t, _⟩ :: members, child :: children, position =>
    (if child.present position then content t child position else .null) :: contents members children position
  | _, _, _ => []
end

/-- The value of element `i` of a column of that type. -/
def cell (t : DataType) (c : Column) (i : Nat) : Value := if c.present i then content t c i else .null

theorem content_ne_null (t : DataType) (c : Column) (i : Nat) : content t c i ≠ .null := by
  cases t <;> simp [content]

theorem cell_eq_cell {t : DataType} {c d : Column} {i j : Nat} :
    cell t c i = cell t d j ↔
      c.present i = d.present j ∧ (c.present i = true → d.present j = true → content t c i = content t d j) := by
  unfold cell
  cases c.present i <;> cases d.present j <;> simp [content_ne_null, (content_ne_null _ _ _).symm]

theorem contents_cons (f : Field) (members : List Field) (child : Column) (children : List Column) (position : Nat) :
    contents (f :: members) (child :: children) position =
      cell f.type child position :: contents members children position := by
  obtain ⟨name, t, nullable⟩ := f
  rfl

theorem content_list {item : Field} {c child : Column} (h : c.children.head? = some child) (i : Nat) :
    content (.list item) c i =
      .list ((List.range (c.bound (i + 1) - c.bound i)).map fun k => cell item.type child (c.bound i + k)) := by
  obtain ⟨name, t, nullable⟩ := item
  simp [content, h, cell]

theorem content_struct (members : List Field) (c : Column) (i : Nat) :
    content (.struct members) c i = .struct (contents members c.children (c.offset + i)) := by
  rw [content]

theorem content_part (t : DataType) (c : Column) (start count i : Nat) :
    content t (c.part start count) i = content t c (start + i) := by
  cases t with
  | list item =>
    obtain ⟨name, t, nullable⟩ := item
    simp only [content, part_children, part_bound, Nat.add_assoc]
  | _ => simp [content, wordAt, Nat.add_assoc]

theorem cell_part (t : DataType) (c : Column) (start count i : Nat) :
    cell t (c.part start count) i = cell t c (start + i) := by
  rw [cell, part_present, content_part, cell]

theorem range_map_eq {α : Type} {m n : Nat} {f g : Nat → α} :
    (List.range m).map f = (List.range n).map g ↔ m = n ∧ ∀ k < m, f k = g k := by
  constructor
  · intro h
    have length : m = n := by simpa using congrArg List.length h
    subst length
    exact ⟨rfl, fun k hk => List.map_inj_left.1 h k (List.mem_range.2 hk)⟩
  · rintro ⟨rfl, h⟩
    exact List.map_inj_left.2 fun k hk => h k (List.mem_range.1 hk)

/-! ## Equality -/

theorem holdsFrom_decides {test : Nat → Result Bool} {p : Nat → Prop} {i count : Nat}
    (h : ∀ k < count, Decides (test (i + k)) (p (i + k))) :
    Decides (holdsFrom test i count) (∀ k < count, p (i + k)) := by
  -- The loop counts down what is left while its start moves on, so the start is generalised.
  induction count generalizing i with
  | zero => exact .pure_iff (by simp)
  | succ count ih =>
    rw [holdsFrom]
    have rest : Decides (holdsFrom test (i + 1) count) (∀ k < count, p (i + (k + 1))) := by
      refine (ih fun k hk => ?_).congr (by simp [Nat.add_assoc, Nat.add_comm 1])
      have := h (k + 1) (by omega)
      rwa [show i + (k + 1) = i + 1 + k by omega] at this
    refine (Decides.and (h 0 (by omega)) fun _ => rest).congr ?_
    constructor
    · rintro ⟨first, rest⟩ k hk
      cases k with
      | zero => exact first
      | succ k => exact rest k (by omega)
    · exact fun all => ⟨all 0 (by omega), fun k hk => all (k + 1) (by omega)⟩

/-- Columns of one type are found equal just when their values are, if the contents of elements
that are not null are compared rightly. -/
theorem equalBy_decides {t : DataType} {test : Column → Nat → Column → Nat → Result Bool} {a b : Column}
    (ha : a.WellFormed) (hb : b.WellFormed) (type : a.type = b.type)
    (contents : ∀ i < a.length, i < b.length → a.present i = true → b.present i = true →
      Decides (test a i b i) (content t a i = content t b i)) :
    Decides (equalBy test a b) (a.length = b.length ∧ ∀ i < a.length, cell t a i = cell t b i) := by
  unfold equalBy
  by_cases length : a.length = b.length
  · by_cases nulls : a.nullCount = b.nullCount
    · rw [if_pos ⟨type, length, nulls⟩]
      refine (holdsFrom_decides (p := fun i => cell t a i = cell t b i) (i := 0) fun i hi => ?_).congr ?_
      · rw [Nat.zero_add]
        rw [isValid_eq ha.counted ha.word hi, ok_bind, isValid_eq hb.counted hb.word (length ▸ hi), ok_bind]
        rw [cell_eq_cell]
        cases pa : a.present i <;> cases pb : b.present i
        · exact .pure_iff (by simp)
        · exact .pure_iff (by simp)
        · exact .pure_iff (by simp)
        · exact (contents i hi (length ▸ hi) pa pb).congr (by simp)
      · simp [length]
    -- The test gives up on the null counts alone; columns with the same cells have the same nulls.
    · rw [if_neg (by simp [nulls])]
      refine .pure_iff ⟨fun h => (nomatch h), fun ⟨_, cells⟩ => absurd ?_ nulls⟩
      rw [ha.counted.nullCount_eq, hb.counted.nullCount_eq, ← length]
      refine List.countP_congr fun i hi => ?_
      rw [(cell_eq_cell.1 (cells i (List.mem_range.1 hi))).1]
  · rw [if_neg (by simp [length])]
    exact .pure_iff (by simp [length])

/-! ### Elements of each type -/

theorem Sound.children_of_list {c : Column} (sound : c.Sound) {item : Field} (type : c.type = .list item) :
    ∃ child, c.children = [child] ∧ child.type = item.type ∧ child.Sound ∧
      (c.length ≠ 0 → c.Rising child.length) := by
  have types := sound.here.children
  rw [type] at types
  obtain ⟨child, rest, children, same, none⟩ := List.map_eq_cons_iff.1 types
  rw [List.map_eq_nil_iff.1 none] at children
  refine ⟨child, children, same, sound.child (by simp [children]), ?_⟩
  have filled := sound.here.filled
  simp only [Filled, type] at filled
  simpa [itemCount, children] using filled

theorem boolAt_eq {c : Column} (wf : c.WellFormed) (type : c.type = .boolean) {i : Nat} (hi : i < c.length)
    (valid : c.present i = true) : c.boolAt i = .ok (some (Bitmap.isSet (c.bytesOf .values) (c.offset + i))) := by
  have word := wf.word
  have room := wf.room_bits type
  unfold stop at word
  rw [boolAt, if_pos type, unlessNull_eq wf.counted wf.word hi, if_pos valid, Word.add_eq_ok (by omega), ok_bind,
    Bitmap.get_isSet (by omega)]
  rfl

theorem fixedBytes_eq {c : Column} (wf : c.WellFormed) {p : Primitive} (type : c.type = .fixed p) {i : Nat}
    (hi : i < c.length) : c.fixedBytes i p.width = .ok (c.wordAt p i) ∧ (c.wordAt p i).size = p.width := by
  have word := wf.word
  obtain ⟨fits, size⟩ := wf.room_words type
  unfold stop at word
  have inside : (c.offset + i) * p.width + p.width ≤ (c.offset + c.length) * p.width := by
    rw [← Nat.succ_mul]
    exact Nat.mul_le_mul_right _ (by omega)
  refine ⟨?_, by simp only [wordAt, Array.size_extract]; omega⟩
  rw [fixedBytes, Word.add_eq_ok (by omega), ok_bind, Word.mul_eq_ok (by omega), ok_bind, Buffer.slice_eq_ok (by omega)]
  rfl

theorem bytesAt_eq {c : Column} (wf : c.WellFormed) (type : c.type = .binary ∨ c.type = .utf8) {i : Nat}
    (hi : i < c.length) (valid : c.present i = true) : c.bytesAt i = .ok (some (c.piece i)) := by
  have rising := wf.rising_values type (by omega)
  rw [bytesAt, if_pos type, unlessNull_eq wf.counted wf.word hi, if_pos valid, variableBytes_eq wf.word rising hi]
  rfl

theorem rangeAt_eq {c : Column} (wf : c.WellFormed) {item : Field} (type : c.type = .list item) {limit : Nat}
    (rising : c.Rising limit) {i : Nat} (hi : i < c.length) (valid : c.present i = true) :
    c.rangeAt i = .ok (some (c.bound i, c.bound (i + 1))) := by
  rw [rangeAt, type]
  simp only
  rw [unlessNull_eq wf.counted wf.word hi, if_pos valid, rising.extent_eq wf.word hi]
  rfl

/-! ### Contents of each type -/

theorem sameMembers_decides {members : List Field} {as bs : List Column} {i j : Nat}
    (ha : as.map (·.type) = members.map (·.type)) (hb : bs.map (·.type) = members.map (·.type))
    (equal : ∀ f ∈ members, ∀ a ∈ as, ∀ b ∈ bs, a.type = f.type → b.type = f.type →
      Decides (do equalBy (sameContent f.type) (← a.slice i 1) (← b.slice j 1)) (cell f.type a i = cell f.type b j)) :
    Decides (sameMembers members as bs i j) (contents members as i = contents members bs j) := by
  induction members generalizing as bs with
  | nil =>
    rw [List.map_nil, List.map_eq_nil_iff] at ha hb
    subst ha hb
    exact .pure_iff (by simp [contents])
  | cons f members ih =>
    obtain ⟨a, as, rfl, ta, ha⟩ := List.map_eq_cons_iff.1 ha
    obtain ⟨b, bs, rfl, tb, hb⟩ := List.map_eq_cons_iff.1 hb
    have first := equal f (by simp) a (by simp) b (by simp) ta tb
    have rest := ih ha hb fun g hg a' ha' b' hb' =>
      equal g (by simp [hg]) a' (by simp [ha']) b' (by simp [hb'])
    rw [contents_cons, contents_cons, List.cons.injEq]
    have both := Decides.and first fun _ => rest
    obtain ⟨name, t, nullable⟩ := f
    simp only [sameMembers]
    simpa only [bind_assoc] using both

/-- Slices of sound columns of one type are found equal just when the values of their ranges are. -/
theorem slices_decide {t : DataType} {a b : Column} (ha : a.Sound) (hb : b.Sound) (aa : a.Addressable)
    (ab : b.Addressable) (type : a.type = b.type) {i j m n : Nat} (hi : i + m ≤ a.length) (hj : j + n ≤ b.length)
    (contents : ∀ x y : Column, x.Sound → y.Sound → x.Addressable → y.Addressable → x.type = a.type →
      y.type = a.type → ∀ k l, k < x.length → l < y.length → x.present k = true → y.present l = true →
      Decides (sameContent t x k y l) (content t x k = content t y l)) :
    Decides (do equalBy (sameContent t) (← a.slice i m) (← b.slice j n))
      (m = n ∧ ∀ k < m, cell t a (i + k) = cell t b (j + k)) := by
  obtain ⟨oka, sa⟩ := ha.slice_part aa hi
  obtain ⟨okb, sb⟩ := hb.slice_part ab hj
  rw [oka, ok_bind, okb, ok_bind]
  refine (equalBy_decides sa.here sb.here type fun k hk hk' =>
    contents _ _ sa sb (aa.part i m) (ab.part j n) rfl type.symm k k hk hk').congr ?_
  simp only [part_length, cell_part]

theorem sameContent_decides (t : DataType) : ∀ a b : Column, a.Sound → b.Sound → a.Addressable → b.Addressable →
    a.type = t → b.type = t → ∀ i j, i < a.length → j < b.length → a.present i = true → b.present j = true →
    Decides (sameContent t a i b j) (content t a i = content t b j) := by
  induction t using DataType.induct with
  | flat t isFlat =>
    intro a b ha hb _ _ ta tb i j hi hj va vb
    cases t with
    | boolean =>
      rw [sameContent, boolAt_eq ha.here ta hi va, ok_bind, boolAt_eq hb.here tb hj vb, ok_bind]
      exact .pure_iff (by simp [content])
    | fixed p =>
      obtain ⟨oka, sa⟩ := fixedBytes_eq ha.here ta hi
      obtain ⟨okb, sb⟩ := fixedBytes_eq hb.here tb hj
      rw [sameContent, oka, ok_bind, okb, ok_bind]
      refine .pure_iff ?_
      rw [content, content, Value.number.injEq, Primitive.decode_inj p (by simpa using sa) (by simpa using sb)]
      simp
    | binary =>
      rw [sameContent, bytesAt_eq ha.here (.inl ta) hi va, ok_bind, bytesAt_eq hb.here (.inl tb) hj vb, ok_bind]
      exact .pure_iff (by simp [content])
    | utf8 =>
      rw [sameContent, bytesAt_eq ha.here (.inr ta) hi va, ok_bind, bytesAt_eq hb.here (.inr tb) hj vb, ok_bind]
      exact .pure_iff (by simp [content])
    | list _ => cases isFlat
    | struct _ => cases isFlat
  | list item ih =>
    intro a b ha hb aa ab ta tb i j hi hj va vb
    obtain ⟨x, xs, tx, sx, rx⟩ := ha.children_of_list ta
    obtain ⟨y, ys, ty, sy, ry⟩ := hb.children_of_list tb
    have rx := rx (by omega)
    have ry := ry (by omega)
    have headx : a.children.head? = some x := by rw [xs]; rfl
    have heady : b.children.head? = some y := by rw [ys]; rfl
    have ax : x.Addressable := aa.child (by simp [xs])
    have ay : y.Addressable := ab.child (by simp [ys])
    -- Both ranges lie within the children, so that neither slice fails.
    have lex := rx.mono i hi
    have ley := ry.mono j hj
    have inx := rx.bound_le (k := i + 1) hi
    have iny := ry.bound_le (k := j + 1) hj
    rw [content_list headx, content_list heady, Value.list.injEq, range_map_eq]
    obtain ⟨name, t, nullable⟩ := item
    rw [sameContent, rangeAt_eq ha.here ta rx hi va, ok_bind, rangeAt_eq hb.here tb ry hj vb, ok_bind, headx, heady]
    simp only
    have slices := slices_decide (t := t) sx sy ax ay (tx.trans ty.symm)
      (i := a.bound i) (m := a.bound (i + 1) - a.bound i) (j := b.bound j) (n := b.bound (j + 1) - b.bound j)
      (by omega) (by omega) (fun x' y' hx hy ax ay tx' ty' => ih x' y' hx hy ax ay (tx'.trans tx) (ty'.trans tx))
    split
    · exact slices
    · rename_i lengths
      exact .pure_iff (by simp [lengths])
  | struct members ih =>
    intro a b ha hb aa ab ta tb i j hi hj va vb
    have wa := ha.here.word
    have wb := hb.here.word
    have ca := ha.here.children
    have cb := hb.here.children
    have fa := ha.here.filled
    have fb := hb.here.filled
    rw [ta] at ca
    rw [tb] at cb
    simp only [Filled, ta] at fa
    simp only [Filled, tb] at fb
    unfold stop at wa wb fa fb
    rw [content_struct, content_struct, Value.struct.injEq, sameContent, Word.add_eq_ok (by omega), ok_bind,
      Word.add_eq_ok (by omega), ok_bind]
    refine sameMembers_decides ca cb fun f hf x hx y hy tx ty => ?_
    have lx := fa x hx
    have ly := fb y hy
    refine (slices_decide (ha.child hx) (hb.child hy) (aa.child hx) (ab.child hy)
      (tx.trans ty.symm) (by omega) (by omega) fun x' y' hx hy ax ay tx' ty' =>
        ih f hf x' y' hx hy ax ay (tx'.trans tx) (ty'.trans tx)).congr ?_
    simp

/-- Equality of columns is equality of type, length and values. -/
theorem equal_decides {a b : Column} (ha : a.Sound) (hb : b.Sound) (aa : a.Addressable) (ab : b.Addressable) :
    Decides (a.equal b)
      (a.type = b.type ∧ a.length = b.length ∧ ∀ i < a.length, cell a.type a i = cell b.type b i) := by
  by_cases type : a.type = b.type
  · refine (equalBy_decides (t := a.type) ha.here hb.here type fun i hi hi' va vb => ?_).congr ?_
    · exact sameContent_decides _ a b ha hb aa ab rfl type.symm i i hi hi' va vb
    · simp [type]
  · rw [equal, equalBy, if_neg (by simp [type])]
    exact .pure_iff (by simp [type])

end Column

end ColumnStream
