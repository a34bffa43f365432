/-
Equality of columns is equality of logical content: of type and cells. It is therefore an equivalence, sees nothing
of how a column is stored, and is kept by slices.
-/
import ColumnStream.Proofs.Batch.Invariant
import ColumnStream.Proofs.Column.Values

namespace ColumnStream.Column

section

variable {a b c : Column}

theorem cells_eq_iff : a.cells = b.cells ↔ a.length = b.length ∧ ∀ i < a.length, cell a.type a i = cell b.type b i :=
  range_map_eq

/-- The comparison ends, and finds out whether type and cells agree. -/
theorem Sound.equal_decides_cells (ha : a.Sound) (hb : b.Sound) (ma : a.Addressable) (mb : b.Addressable) :
    Decides (a.equal b) (a.type = b.type ∧ a.cells = b.cells) :=
  (equal_decides ha hb ma mb).congr (and_congr_right fun _ => cells_eq_iff.symm)

theorem Sound.equal_eq_true_iff (ha : a.Sound) (hb : b.Sound) (ma : a.Addressable) (mb : b.Addressable) :
    a.equal b = .ok true ↔ a.type = b.type ∧ a.cells = b.cells := by
  obtain ⟨verdict, ran, iff⟩ := ha.equal_decides_cells hb ma mb
  rw [ran, ← iff]
  exact ⟨Except.ok.inj, congrArg Except.ok⟩

theorem Sound.equal_symm (ha : a.Sound) (hb : b.Sound) (ma : a.Addressable) (mb : b.Addressable) :
    a.equal b = b.equal a := by
  obtain ⟨verdict, ran, iff⟩ := ha.equal_decides_cells hb ma mb
  obtain ⟨verdict', ran', iff'⟩ := hb.equal_decides_cells ha mb ma
  rw [ran, ran', Bool.eq_iff_iff.2 (iff.trans (Iff.trans ?_ iff'.symm))]
  exact ⟨fun h => ⟨h.1.symm, h.2.symm⟩, fun h => ⟨h.1.symm, h.2.symm⟩⟩

/-- Slices of equal columns over one range are equal. -/
theorem Sound.equal_slice (ha : a.Sound) (hb : b.Sound) (ma : a.Addressable) (mb : b.Addressable) {start count : Nat}
    (inside : start + count ≤ a.length) (same : a.equal b = .ok true) :
    ∃ x y, a.slice start count = .ok x ∧ b.slice start count = .ok y ∧ x.equal y = .ok true := by
  obtain ⟨type, cells⟩ := (ha.equal_eq_true_iff hb ma mb).1 same
  have inside' : start + count ≤ b.length := by
    have length := (cells_eq_iff.1 cells).1
    omega
  obtain ⟨cutA, soundA⟩ := ha.slice_part ma inside
  obtain ⟨cutB, soundB⟩ := hb.slice_part mb inside'
  refine ⟨_, _, cutA, cutB, (soundA.equal_eq_true_iff soundB (ma.part _ _) (mb.part _ _)).2 ⟨type, ?_⟩⟩
  rw [cells_part inside, cells_part inside', cells]

/-- Packing keeps the cells. -/
theorem Packs.cells_eq (packs : Packs a.type a b) (sound : a.Sound) : b.cells = a.cells := by
  have kept := Packs.kept a.type a b sound rfl packs
  refine cells_eq_iff.2 ⟨packs.own.length, fun i hi => ?_⟩
  rw [packs.own.type]
  exact kept.cell packs.own sound.here (packs.own.length ▸ hi)

/-- Two columns are found equal just when they have one type and the same logical values, which are what reading
them brings. So equality is reflexive, symmetric and transitive, rests on which elements are null and on what the
others hold and on nothing else, and passes to slices. -/
theorem equal_iff_cells (ha : a.Obtained) (hb : b.Obtained) (ma : a.Addressable) (mb : b.Addressable) :
    a.values = .ok a.cells ∧ b.values = .ok b.cells ∧
      Decides (a.equal b) (a.type = b.type ∧ a.cells = b.cells) ∧
      a.equal a = .ok true ∧
      a.equal b = b.equal a ∧
      (∀ c : Column, c.Obtained → c.Addressable → a.equal b = .ok true → b.equal c = .ok true →
        a.equal c = .ok true) ∧
      (a.type = b.type → a.length = b.length → (∀ i < a.length, a.present i = b.present i ∧
        (a.present i = true → content a.type a i = content b.type b i)) → a.equal b = .ok true) ∧
      ∀ start count, start + count ≤ a.length → a.equal b = .ok true →
        ∃ x y, a.slice start count = .ok x ∧ b.slice start count = .ok y ∧ x.equal y = .ok true := by
  have sa := ha.reachable.sound
  have sb := hb.reachable.sound
  have iff := sa.equal_eq_true_iff sb ma mb
  refine ⟨sa.values_eq ma, sb.values_eq mb, sa.equal_decides_cells sb ma mb,
    (sa.equal_eq_true_iff sa ma ma).2 ⟨rfl, rfl⟩, sa.equal_symm sb ma mb, fun c hc mc first second => ?_,
    fun type length elements => ?_, fun start count inside same => sa.equal_slice sb ma mb inside same⟩
  · have sc := hc.reachable.sound
    obtain ⟨type, cells⟩ := iff.1 first
    obtain ⟨type', cells'⟩ := (sb.equal_eq_true_iff sc mb mc).1 second
    exact (sa.equal_eq_true_iff sc ma mc).2 ⟨type.trans type', cells.trans cells'⟩
  · refine iff.2 ⟨type, cells_eq_iff.2 ⟨length, fun i hi => ?_⟩⟩
    obtain ⟨present, held⟩ := elements i hi
    rw [type] at held ⊢
    exact cell_eq_cell.2 ⟨present, fun valid _ => held valid⟩

end

/-- The bytes 7 and null from position zero on, and again from position one on, with other bytes around and below. -/
def plainPair : Column := ⟨.fixed .uint8, 2, 1, 0, [#[1], #[7, 9]], []⟩

def shiftedPair : Column := ⟨.fixed .uint8, 2, 1, 1, [#[0xFA], #[3, 7, 0, 5]], []⟩

/-- A list of these two and an empty one, over the first of them, and again from position one on over a child that
begins with another byte. -/
def plainLists : Column :=
  ⟨.list ⟨"item", .fixed .uint8, true⟩, 2, 0, 0, [#[], #[0, 0, 0, 0, 2, 0, 0, 0, 2, 0, 0, 0]], [plainPair]⟩

def shiftedChild : Column := ⟨.fixed .uint8, 3, 1, 0, [#[3], #[4, 7, 6]], []⟩

def shiftedLists : Column :=
  ⟨plainLists.type, 2, 0, 1, [#[], #[0, 0, 0, 0, 1, 0, 0, 0, 3, 0, 0, 0, 3, 0, 0, 0]], [shiftedChild]⟩

theorem obtained_plainPair : plainPair.Obtained ∧ plainPair.Addressable :=
  ⟨.assembled (by simp) (show assemble plainPair.type 2 1 0 plainPair.buffers [] = .ok plainPair from rfl),
    .intro (fun _ found => by cases found; decide) (by simp [plainPair])⟩

theorem obtained_shiftedPair : shiftedPair.Obtained ∧ shiftedPair.Addressable :=
  ⟨.assembled (by simp) (show assemble shiftedPair.type 2 1 1 shiftedPair.buffers [] = .ok shiftedPair from rfl),
    .intro (fun _ found => by cases found; decide) (by simp [shiftedPair])⟩

theorem obtained_shiftedChild : shiftedChild.Obtained ∧ shiftedChild.Addressable :=
  ⟨.assembled (by simp) (show assemble shiftedChild.type 3 1 0 shiftedChild.buffers [] = .ok shiftedChild from rfl),
    .intro (fun _ found => by cases found; decide) (by simp [shiftedChild])⟩

theorem obtained_plainLists : plainLists.Obtained ∧ plainLists.Addressable := by
  obtain ⟨made, small⟩ := obtained_plainPair
  exact ⟨.assembled (List.forall_mem_singleton.2 made)
    (show assemble plainLists.type 2 0 0 plainLists.buffers _ = .ok plainLists from rfl),
    .intro (fun _ found => nomatch found) (List.forall_mem_singleton.2 small)⟩

theorem obtained_shiftedLists : shiftedLists.Obtained ∧ shiftedLists.Addressable := by
  obtain ⟨made, small⟩ := obtained_shiftedChild
  exact ⟨.assembled (List.forall_mem_singleton.2 made)
    (show assemble shiftedLists.type 2 0 1 shiftedLists.buffers _ = .ok shiftedLists from rfl),
    .intro (fun _ found => nomatch found) (List.forall_mem_singleton.2 small)⟩

theorem equal_iff_cells_pairs : plainPair.equal shiftedPair = .ok true ∧ plainPair.equal plainPair = .ok true ∧
    (∃ x y, plainPair.slice 1 1 = .ok x ∧ shiftedPair.slice 1 1 = .ok y ∧ x.equal y = .ok true) ∧
    plainLists.equal shiftedLists = .ok true ∧
    ∃ x y, plainLists.slice 0 1 = .ok x ∧ shiftedLists.slice 0 1 = .ok y ∧ x.equal y = .ok true := by
  obtain ⟨plain, small⟩ := obtained_plainPair
  obtain ⟨shifted, small'⟩ := obtained_shiftedPair
  obtain ⟨-, -, decides, same, -, -, -, slices⟩ := equal_iff_cells plain shifted small small'
  have alike : plainPair.cells = shiftedPair.cells := by cbv
  have equal := decides.eq_true ⟨rfl, alike⟩
  obtain ⟨lists, small⟩ := obtained_plainLists
  obtain ⟨lists', small'⟩ := obtained_shiftedLists
  obtain ⟨-, -, decides', -, -, -, -, slices'⟩ := equal_iff_cells lists lists' small small'
  have alike' : plainLists.cells = shiftedLists.cells := by cbv
  have equal' := decides'.eq_true ⟨rfl, alike'⟩
  exact ⟨equal, same, slices 1 1 (by decide) equal, equal', slices' 0 1 (by decide) equal'⟩

end ColumnStream.Column

/-! ## Batches -/

namespace ColumnStream.Batch

theorem equalColumns_of_cells {as bs : List Column}
    (same : List.Forall₂ (fun a b => a.type = b.type ∧ a.cells = b.cells) as bs) (sa : ∀ a ∈ as, a.Sound)
    (sb : ∀ b ∈ bs, b.Sound) (ma : ∀ a ∈ as, a.Addressable) (mb : ∀ b ∈ bs, b.Addressable) :
    equalColumns as bs = .ok true := by
  induction same with
  | nil => rfl
  | @cons a b as bs first _ ih =>
    obtain ⟨ownA, sa⟩ := List.forall_mem_cons.1 sa
    obtain ⟨ownB, sb⟩ := List.forall_mem_cons.1 sb
    obtain ⟨smallA, ma⟩ := List.forall_mem_cons.1 ma
    obtain ⟨smallB, mb⟩ := List.forall_mem_cons.1 mb
    rw [equalColumns, (ownA.equal_eq_true_iff ownB smallA smallB).2 first, ok_bind]
    exact ih sa sb ma mb

end ColumnStream.Batch
