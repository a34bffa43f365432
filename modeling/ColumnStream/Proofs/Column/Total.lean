/-
Checking whatever parts there are. The stages of a check stand in an order in which each may rely on those before
it: bits are counted in bitmaps known to be long enough, offsets are read where there is room for them, and texts
where the offsets are known to rise. Therefore a check ends with a verdict on any column, and is never a fault.
-/
import ColumnStream.Proofs.Column.Reachable

namespace ColumnStream.Column

/-! ## Shape -/

theorem answers_checkShape (c : Column) : Answers Error.OfColumn (fun _ => True) c.checkShape := by
  have types (children : List Column) (fields : List Field) :
      Answers Error.OfColumn (fun _ => True) (checkChildTypes children fields) := by
    fun_induction checkChildTypes children fields with
    | case1 _ _ _ _ _ ih => exact ih
    | case2 => trivial
    | case3 => trivial
  unfold checkShape
  split
  · trivial
  · split
    · trivial
    · exact types _ _

theorem answers_checkExtent (c : Column) : Answers Error.OfColumn (fun _ => True) c.checkExtent := by
  unfold checkExtent
  split
  · trivial
  · split <;> trivial

/-! ## Buffers -/

theorem answers_checkBuffer (c : Column) (buffer : Buffer) (role : Role) :
    Answers Error.OfColumn (fun _ => True) (c.checkBuffer buffer role) := by
  unfold checkBuffer
  split
  · split <;> trivial
  · split
    · trivial
    · split <;> trivial

theorem answers_checkBuffers (c : Column) (buffers : List Buffer) (roles : List Role) :
    Answers Error.OfColumn (fun _ => True) (c.checkBuffers buffers roles) := by
  fun_induction checkBuffers c buffers roles with
  | case1 _ _ _ _ ih => exact (answers_checkBuffer ..).bind fun _ _ _ => ih
  | case2 => trivial

/-- A bitmap that passed the check of the buffers holds a bit for every position. -/
theorem bytesFor_le_of_checkBuffer {c : Column} {validity : Buffer} (count : c.buffers.length = c.type.roles.length)
    (checked : c.checkBuffer (c.bytesOf .validity) .validity = .ok ()) (found : c.validity? = some validity) :
    bytesFor c.stop ≤ validity.size := by
  rw [validity?_eq count] at found
  split at found
  · cases found
  · rename_i stored
    cases found
    rw [checkBuffer, if_neg (by simpa using stored)] at checked
    simp only [DataType.leastLength?] at checked
    split at checked
    · assumption
    · cases checked

theorem answers_checkNulls {c : Column} (word : c.stop < wordSize)
    (enough : ∀ validity, c.validity? = some validity → bytesFor c.stop ≤ validity.size ∧ c.offset + 8 < wordSize) :
    Answers Error.OfColumn (fun _ => True) c.checkNulls := by
  unfold checkNulls
  split
  · trivial
  · rename_i validity found
    obtain ⟨size, step⟩ := enough validity found
    rw [bytesFor_eq] at size
    unfold stop at size word
    rw [Bitmap.countClear_eq_ok (by omega) step (by omega), ok_bind]
    split <;> trivial

/-! ## Contents -/

theorem answers_offsetEntry (offsets : Buffer) {position : Nat} (word : offsetWidth * (position + 1) < wordSize) :
    Answers Error.OfColumn (fun _ => True) (offsetEntry offsets position) := by
  rw [Nat.mul_succ, Nat.mul_comm] at word
  rw [offsetEntry, Word.mul_eq_ok (by omega), ok_bind, Word.add_eq_ok word, ok_bind]
  split
  · generalize Primitive.int32.decode _ = value
    simp only
    split <;> trivial
  · trivial

theorem answers_lastOffset (offsets : Buffer) {position previous count : Nat}
    (word : offsetWidth * (position + count) < wordSize) :
    Answers Error.OfColumn (fun _ => True) (lastOffset offsets position previous count) := by
  induction count generalizing position previous with
  | zero => exact .of_ok rfl trivial
  | succ count ih =>
    rw [lastOffset]
    refine (answers_offsetEntry offsets ?_).bind fun current _ _ => ?_
    · exact lt_of_le_of_lt (Nat.mul_le_mul_left _ (by omega)) word
    · split
      · exact ih (by rwa [Nat.add_right_comm, Nat.add_assoc])
      · trivial

theorem answers_checkOffsets {c : Column} (room : c.length ≠ 0 → offsetWidth * (c.stop + 1) < wordSize) (limit : Nat) :
    Answers Error.OfColumn (fun _ => True) (c.checkOffsets limit) := by
  unfold checkOffsets
  split
  · trivial
  · rename_i some
    have word := room some
    unfold stop at word
    refine (answers_offsetEntry _ ?_).bind fun first _ _ => (answers_lastOffset _ ?_).bind fun last _ _ => ?_
    · exact lt_of_le_of_lt (Nat.mul_le_mul_left _ (by omega)) word
    · rwa [Nat.add_right_comm]
    · split <;> trivial

theorem answers_checkTexts {c : Column} (counted : c.Counted) (word : c.stop < wordSize)
    (rising : c.length ≠ 0 → c.Rising (c.bytesOf .values).size) {i count : Nat} (inside : i + count ≤ c.length) :
    Answers Error.OfColumn (fun _ => True) (c.checkTexts i count) := by
  induction count generalizing i with
  | zero => trivial
  | succ count ih =>
    have first : Answers Error.OfColumn (fun _ => True) (c.checkText i) := by
      have here : i < c.length := by omega
      rw [checkText, unlessNull_eq counted word here, variableBytes_eq word (rising (by omega)) here]
      cases c.present i with
      | false => trivial
      | true =>
        show Answers _ _ (if (c.piece i).text?.isSome = true then Except.ok () else refuse _)
        split <;> trivial
    exact first.bind fun _ _ _ => ih (by omega)

theorem answers_checkMembers (c : Column) (children : List Column) :
    Answers Error.OfColumn (fun _ => True) (c.checkMembers children) := by
  fun_induction checkMembers c children with
  | case1 => trivial
  | case2 _ _ _ ih => exact ih
  | case3 => trivial

theorem answers_checkContents {c : Column} (counted : c.Counted) (word : c.stop < wordSize)
    (room : ∀ role ∈ c.type.roles, role ≠ .validity → c.Room role) :
    Answers Error.OfColumn (fun _ => True) c.checkContents := by
  have offsets (mem : .offsets ∈ c.type.roles) (limit : Nat) :
      Answers Error.OfColumn (fun _ => True) (c.checkOffsets limit) :=
    answers_checkOffsets (fun some => ((room _ mem (by decide)).offsets some).1) limit
  unfold checkContents
  cases type : c.type with
  | boolean => trivial
  | fixed p => trivial
  | binary => exact offsets (by simp [type, DataType.roles]) _
  | utf8 =>
    refine (offsets (by simp [type, DataType.roles]) _).bind fun _ checked _ => ?_
    exact answers_checkTexts counted word (checkOffsets_eq_ok.1 checked) (by omega)
  | list item => exact offsets (by simp [type, DataType.roles]) _
  | struct members => exact answers_checkMembers ..

/-! ## The check -/

/-- The check of a column accepts or refuses it, as long as a count over its bitmap may start at its offset. -/
theorem answers_check {c : Column} (step : ∀ validity, c.validity? = some validity →
      bytesFor c.stop ≤ validity.size → c.offset + 8 < wordSize) :
    Answers Error.OfColumn (fun _ => c.WellFormed) c.check := by
  have ends : Answers Error.OfColumn (fun _ => True) c.check := by
    refine (answers_checkShape c).bind fun _ shape _ => (answers_checkExtent c).bind fun _ extent _ =>
      (answers_checkBuffers ..).bind fun _ buffers _ => ?_
    obtain ⟨count, -⟩ := checkShape_eq_ok.1 shape
    obtain ⟨-, word⟩ := checkExtent_eq_ok.1 extent
    rw [buffers_eq count, checkBuffers_eq_ok] at buffers
    have validity := buffers _ (roles_validity _)
    refine (answers_checkNulls word fun bitmap found => ?_).bind fun _ nulls _ => ?_
    · have size := bytesFor_le_of_checkBuffer count validity found
      exact ⟨size, step bitmap found size⟩
    · exact answers_checkContents ((checkValidity_eq_ok count).1 ⟨validity, nulls⟩) word fun role mem other =>
        (checkBuffer_eq_ok other).1 (buffers role mem)
  exact ends.mono fun _ checked _ => check_eq_ok.1 checked

theorem answers_assemble {type : DataType} {length nulls offset : Nat} {buffers : List Buffer} {children : List Column}
    (step : ∀ validity, (⟨type, length, nulls, offset, buffers, children⟩ : Column).validity? = some validity →
      bytesFor (offset + length) ≤ validity.size → offset + 8 < wordSize) :
    Answers Error.OfColumn (fun c => c = ⟨type, length, nulls, offset, buffers, children⟩ ∧ c.WellFormed)
      (assemble type length nulls offset buffers children) :=
  (answers_check step).bind fun _ _ wf => ⟨rfl, wf⟩

end ColumnStream.Column
