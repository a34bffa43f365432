/-
Which schemas have metadata: those in which no type lies too deep and no struct is empty, and these are also
the schemas that are read from some metadata. What is read, however its numbers are spelled, can be written,
and the encoder spells it in no more bytes than the parser took.
-/
import ColumnStream.Proofs.Metadata.Parsing

namespace ColumnStream

/-! ## Schemas that can be written -/

/-- The number of fields and the length of each name are machine words, as they are of all that is in memory. -/
structure FieldsFit (fields : List Field) : Prop where
  count : fields.length < wordSize
  names : ∀ f ∈ fields, (Bytes.ofText f.name).length < wordSize

/-- A type holds itself at the first level, and what its children hold a level deeper. -/
inductive DataType.Holds : DataType → Nat → DataType → Prop
  | self (t : DataType) : Holds t 1 t
  | child {t u : DataType} {f : Field} {level : Nat} : f ∈ t.children → Holds f.type level u → Holds t (level + 1) u

def Schema.Holds (s : Schema) (level : Nat) (t : DataType) : Prop := ∃ f ∈ s.fields, f.type.Holds level t

structure Schema.InMemory (s : Schema) : Prop where
  fields : FieldsFit s.fields
  members : ∀ level t, s.Holds level t → FieldsFit t.children

namespace Metadata

variable {α : Type}

theorem encodeAll_eq_ok_iff {write : α → Result Bytes} {items : List α} :
    (∃ x, encodeAll write items = .ok x) ↔ items.length < wordSize ∧ ∀ a ∈ items, ∃ x, write a = .ok x := by
  constructor
  · rintro ⟨x, h⟩
    obtain ⟨count, parts, hcount, written, -⟩ := encodeAll_ok h
    refine ⟨Varint.encode_eq_ok_iff.1 ⟨count, hcount⟩, fun a ha => ?_⟩
    obtain ⟨i, hi, rfl⟩ := List.getElem_of_mem ha
    exact ⟨_, (List.forall₂_iff_get.1 written).2 i (written.length_eq ▸ hi) hi⟩
  · rintro ⟨count, each⟩
    exact encodeAll_eq_ok count each

theorem encodeField_eq_ok_iff {write : DataType → Result Bytes} {f : Field} :
    (∃ x, encodeField write f = .ok x) ↔ (Bytes.ofText f.name).length < wordSize ∧ ∃ x, write f.type = .ok x := by
  constructor
  · rintro ⟨x, h⟩
    obtain ⟨length, hlength, h⟩ := bind_eq_ok.1 h
    obtain ⟨t, ht, -⟩ := bind_eq_ok.1 h
    exact ⟨Varint.encode_eq_ok_iff.1 ⟨length, hlength⟩, t, ht⟩
  · rintro ⟨short, t, ht⟩
    obtain ⟨length, hlength⟩ := Varint.encode_eq_ok_iff.2 short
    exact ⟨_, bind_eq_ok.2 ⟨length, hlength, bind_eq_ok.2 ⟨t, ht, rfl⟩⟩⟩

theorem encodeFields_eq_ok_iff {write : DataType → Result Bytes} {fields : List Field} :
    (∃ x, encodeAll (encodeField write) fields = .ok x) ↔
      FieldsFit fields ∧ ∀ f ∈ fields, ∃ x, write f.type = .ok x := by
  rw [encodeAll_eq_ok_iff]
  constructor
  · rintro ⟨count, each⟩
    exact ⟨⟨count, fun f hf => (encodeField_eq_ok_iff.1 (each f hf)).1⟩,
      fun f hf => (encodeField_eq_ok_iff.1 (each f hf)).2⟩
  · rintro ⟨fit, each⟩
    exact ⟨fit.count, fun f hf => encodeField_eq_ok_iff.2 ⟨fit.names f hf, each f hf⟩⟩

/-- What one level asks of a type: it is not the empty struct, and its children can be written a level deeper. -/
theorem encodeType_succ_eq_ok_iff {levels : Nat} {t : DataType} :
    (∃ x, encodeType (levels + 1) t = .ok x) ↔
      t ≠ .struct [] ∧ FieldsFit t.children ∧ ∀ f ∈ t.children, ∃ x, encodeType levels f.type = .ok x := by
  have nothing : FieldsFit [] := ⟨by decide, by simp⟩
  cases t with
  | boolean | fixed _ | binary | utf8 =>
    exact ⟨fun _ => ⟨by simp, nothing, by simp [DataType.children]⟩, fun _ => ⟨_, rfl⟩⟩
  | list item =>
    have single : FieldsFit [item] ↔ (Bytes.ofText item.name).length < wordSize :=
      ⟨fun h => h.names item (List.mem_singleton_self _), fun h => ⟨by simp [wordSize], List.forall_mem_singleton.2 h⟩⟩
    simp only [DataType.children, single, List.forall_mem_singleton]
    rw [← encodeField_eq_ok_iff, encodeType]
    constructor
    · rintro ⟨x, h⟩
      obtain ⟨y, hy, -⟩ := bind_eq_ok.1 h
      exact ⟨by simp, y, hy⟩
    · rintro ⟨-, y, hy⟩
      exact ⟨_, by rw [hy]; rfl⟩
  | struct members =>
    simp only [DataType.children]
    rw [← encodeFields_eq_ok_iff, encodeType]
    cases members with
    | nil =>
      constructor
      · rintro ⟨x, h⟩
        cases h
      · rintro ⟨some, -⟩
        exact absurd rfl some
    | cons first others =>
      rw [if_neg (by simp)]
      constructor
      · rintro ⟨x, h⟩
        obtain ⟨y, hy, -⟩ := bind_eq_ok.1 h
        exact ⟨by simp, y, hy⟩
      · rintro ⟨-, y, hy⟩
        exact ⟨_, by rw [hy]; rfl⟩

theorem encodeType_eq_ok_iff {levels : Nat} {t : DataType} :
    (∃ x, encodeType levels t = .ok x) ↔
      ∀ level u, t.Holds level u → level ≤ levels ∧ u ≠ .struct [] ∧ FieldsFit u.children := by
  induction levels generalizing t with
  | zero =>
    refine ⟨fun ⟨x, h⟩ => (nomatch h), fun h => ?_⟩
    exact absurd (h 1 t (.self t)).1 (by decide)
  | succ levels ih =>
    rw [encodeType_succ_eq_ok_iff]
    constructor
    · rintro ⟨some, fit, each⟩ level u holds
      cases holds with
      | self => exact ⟨by omega, some, fit⟩
      | child mem below =>
        obtain ⟨shallow, rest⟩ := ih.1 (each _ mem) _ _ below
        exact ⟨by omega, rest⟩
    · intro h
      obtain ⟨-, some, fit⟩ := h 1 t (.self t)
      refine ⟨some, fit, fun f mem => ih.2 fun level u below => ?_⟩
      obtain ⟨shallow, rest⟩ := h (level + 1) u (.child mem below)
      exact ⟨by omega, rest⟩

theorem encodeSchema_eq_ok_iff {s : Schema} :
    (∃ x, encodeSchema s = .ok x) ↔
      s.InMemory ∧ ∀ level t, s.Holds level t → level ≤ maxLevels ∧ t ≠ .struct [] := by
  rw [encodeSchema, encodeFields_eq_ok_iff]
  constructor
  · rintro ⟨fit, each⟩
    have all : ∀ level t, s.Holds level t → level ≤ maxLevels ∧ t ≠ .struct [] ∧ FieldsFit t.children := by
      rintro level t ⟨f, mem, holds⟩
      exact encodeType_eq_ok_iff.1 (each f mem) level t holds
    exact ⟨⟨fit, fun level t h => (all level t h).2.2⟩, fun level t h => ⟨(all level t h).1, (all level t h).2.1⟩⟩
  · rintro ⟨memory, shallow⟩
    refine ⟨memory.fields, fun f mem => encodeType_eq_ok_iff.2 fun level t holds => ?_⟩
    have here : s.Holds level t := ⟨f, mem, holds⟩
    exact ⟨(shallow level t here).1, (shallow level t here).2, memory.members level t here⟩

theorem encode_eq_ok_iff {m : Metadata} :
    (∃ x, encode m = .ok x) ↔ m.bodyLength < wordSize ∧ ∃ x, encodeHeader m.header = .ok x := by
  constructor
  · rintro ⟨x, h⟩
    obtain ⟨length, header, hlength, hheader, -⟩ := encode_ok h
    exact ⟨Varint.encode_eq_ok_iff.1 ⟨length, hlength⟩, header, hheader⟩
  · rintro ⟨short, header, hheader⟩
    obtain ⟨length, hlength⟩ := Varint.encode_eq_ok_iff.2 short
    exact ⟨_, bind_eq_ok.2 ⟨length, hlength, bind_eq_ok.2 ⟨header, hheader, rfl⟩⟩⟩

end Metadata

/-! ## Numbers in other spellings -/

namespace Varint

/-- A number is less than its bytes can spell. -/
theorem number_lt {bytes n : Nat} {input rest : Bytes} (h : number bytes input = .ok (n, rest)) :
    ∃ taken, 0 < taken ∧ taken + rest.length = input.length ∧ n < card taken := by
  induction bytes generalizing input n with
  | zero => cases h
  | succ bytes ih =>
    cases input with
    | nil => cases h
    | cons b input =>
      rw [number] at h
      split at h
      · rename_i last
        cases h
        exact ⟨1, by decide, Nat.add_comm .., last⟩
      · cases found : number bytes input with
        | error problem =>
          rw [found] at h
          cases h
        | ok read =>
          obtain ⟨high, left⟩ := read
          rw [found] at h
          cases h
          obtain ⟨taken, -, sizes, less⟩ := ih found
          refine ⟨taken + 1, Nat.succ_pos _, by rw [List.length_cons]; omega, ?_⟩
          rw [card]
          omega

/-- The shortest spelling is no longer than any. -/
theorem length_digits_le {more n bytes : Nat} (some : 0 < bytes) (h : n < card bytes) :
    (digits more n).length ≤ bytes := by
  induction more generalizing n bytes with
  | zero => exact some
  | succ more ih =>
    unfold digits
    split
    · exact some
    · rename_i large
      obtain ⟨bytes, rfl⟩ := Nat.exists_eq_add_of_lt some
      rw [Nat.zero_add, card] at h
      have further : 0 < bytes := by
        rcases Nat.eq_zero_or_pos bytes with rfl | further
        · exact absurd h large
        · exact further
      have := ih further (Nat.div_lt_of_lt_mul h)
      rw [List.length_cons]
      omega

end Varint

theorem Bytes.ofText_of_text? {b : Bytes} {s : String} (h : Bytes.text? b = some s) : Bytes.ofText s = b := by
  rw [Bytes.text?, String.fromUTF8?] at h
  split at h
  · cases h
    rw [Bytes.ofText]
    exact toList_eq ⟨b.toArray⟩
  · cases h

/-! ## What is read can be written -/

namespace Metadata

open ColumnStream.Parser

variable {α β : Type}

/-- What the parser finds can be written, in no more bytes than it took. -/
def Respells (p : Parser α) (write : α → Result Bytes) : Prop :=
  ∀ ⦃input rest : Bytes⦄ ⦃a : α⦄, p input = .ok (a, rest) →
    ∃ x, write a = .ok x ∧ x.length + rest.length ≤ input.length

theorem respells_varint : Respells varint Varint.encode := by
  intro input rest n h
  obtain ⟨m, found, rfl⟩ := Varint.decode_eq_ok.1 (varint_eq_ok.1 h)
  obtain ⟨taken, some, sizes, less⟩ := Varint.number_lt found
  have word : m % wordSize < wordSize := Nat.mod_lt _ (by decide)
  -- Dropping the high bits makes the number no larger.
  have shortest : (Varint.digits (Varint.maxBytes - 1) (m % wordSize)).length ≤ taken :=
    Varint.length_digits_le some (lt_of_le_of_lt (Nat.mod_le m wordSize) less)
  exact ⟨_, by rw [Varint.encode, if_pos word], by omega⟩

theorem bytes_ok {count : Nat} {input rest x : Bytes} (h : bytes count input = .ok (x, rest)) :
    x.length = count ∧ x.length + rest.length = input.length := by
  simp only [bytes] at h
  split at h <;> cases h
  rename_i enough
  refine ⟨enough, ?_⟩
  rw [← List.length_append, List.take_append_drop]

theorem byte_ok {input rest : Bytes} {b : UInt8} (h : byte input = .ok (b, rest)) : input = b :: rest := by
  cases input with
  | nil => cases h
  | cons c input => cases h; rfl

/-! ### Items in a row -/

open Parsing (times counted)

theorem times_respells {item : Parser α} {write : α → Result Bytes} (h : Respells item write) {count : Nat}
    {items : List α} {input rest : Bytes} (ran : times count item input = .ok (items, rest)) :
    ∃ parts, items.length = count ∧ items.mapM write = .ok parts ∧
      parts.flatten.length + rest.length ≤ input.length := by
  induction count generalizing items input with
  | zero =>
    rw [times_zero] at ran
    cases ran
    exact ⟨[], rfl, rfl, by simp⟩
  | succ count ih =>
    rw [times_succ] at ran
    obtain ⟨a, left, found, ran⟩ := found_bind.1 ran
    obtain ⟨others, _, further, last⟩ := found_bind.1 ran
    cases last
    obtain ⟨x, hx, first⟩ := h found
    obtain ⟨parts, length, written, less⟩ := ih further
    refine ⟨x :: parts, congrArg Nat.succ length, ?_, ?_⟩
    · rw [List.mapM_cons, hx, ok_bind, written]
      rfl
    · rw [List.flatten_cons, List.length_append]
      omega

theorem Respells.counted {item : Parser α} {write : α → Result Bytes} (h : Respells item write) :
    Respells (counted item) (encodeAll write) := by
  intro input rest items ran
  obtain ⟨count, left, number, ran⟩ := found_bind.1 ran
  obtain ⟨x, hx, first⟩ := respells_varint number
  obtain ⟨parts, rfl, written, others⟩ := times_respells h ran
  refine ⟨x ++ parts.flatten, bind_eq_ok.2 ⟨x, hx, bind_eq_ok.2 ⟨parts, written, rfl⟩⟩, ?_⟩
  rw [List.length_append]
  omega

/-! ### Schemas -/

theorem Respells.field {type : Parser DataType} {write : DataType → Result Bytes} (h : Respells type write) :
    Respells (parseField type) (encodeField write) := by
  intro input rest f ran
  obtain ⟨count, input₁, number, ran⟩ := found_bind.1 ran
  obtain ⟨name, input₂, taken, ran⟩ := found_bind.1 ran
  obtain ⟨flag, input₃, marked, ran⟩ := found_bind.1 ran
  obtain ⟨t, input₄, typed, judged⟩ := found_bind.1 ran
  obtain ⟨x, hx, first⟩ := respells_varint number
  obtain ⟨rfl, second⟩ := bytes_ok taken
  obtain rfl := byte_ok marked
  obtain ⟨y, hy, last⟩ := h typed
  have named : Bytes.ofText f.name = name ∧ f.type = t ∧ rest = input₄ := by
    cases spelled : Bytes.text? name with
    | none =>
      rw [spelled] at judged
      cases judged
    | some text =>
      rw [spelled] at judged
      have spelling := Bytes.ofText_of_text? spelled
      simp only at judged
      split at judged
      · cases judged
        exact ⟨spelling, rfl, rfl⟩
      · split at judged <;> cases judged
        exact ⟨spelling, rfl, rfl⟩
  obtain ⟨spelling, rfl, rfl⟩ := named
  refine ⟨_, bind_eq_ok.2 ⟨x, by rw [spelling, hx], bind_eq_ok.2 ⟨y, hy, rfl⟩⟩, ?_⟩
  simp only [List.length_append, List.length_cons, List.length_nil, spelling] at *
  omega

theorem encodeType_flat {t : DataType} {tag : UInt8} (h : DataType.ofTag? tag = some t) (levels : Nat) :
    encodeType (levels + 1) t = .ok [t.tag] := by
  have flat : ∀ t ∈ DataType.flat, t.isNested = false := by decide
  have := flat t (List.mem_of_find?_eq_some h)
  cases t with
  | boolean | fixed _ | binary | utf8 => rfl
  | list _ | struct _ => cases this

theorem respells_type (levels : Nat) : Respells (parseType levels) (encodeType levels) := by
  induction levels with
  | zero =>
    intro input rest t ran
    cases ran
  | succ levels ih =>
    intro input rest t ran
    rw [parseType_succ] at ran
    obtain ⟨tag, left, tagged, behind⟩ := found_bind.1 ran
    obtain rfl := byte_ok tagged
    split at behind
    · obtain ⟨item, left', found, last⟩ := found_bind.1 behind
      cases last
      obtain ⟨x, hx, less⟩ := ih.field found
      exact ⟨_, bind_eq_ok.2 ⟨x, hx, rfl⟩, by simp only [List.length_cons]; omega⟩
    · split at behind
      · obtain ⟨count, counted, number, behind⟩ := found_bind.1 behind
        split at behind
        · cases behind
        · rename_i some
          obtain ⟨members, left', found, last⟩ := found_bind.1 behind
          cases last
          obtain ⟨-, length, -⟩ := times_respells ih.field found
          obtain ⟨x, hx, less⟩ := ih.field.counted (found_bind.2 ⟨count, counted, number, found⟩)
          have members_ne : ¬ members.isEmpty = true := by
            rintro empty
            rw [List.isEmpty_iff.1 empty] at length
            exact some length.symm
          refine ⟨_, by rw [encodeType, if_neg members_ne]; exact bind_eq_ok.2 ⟨x, hx, rfl⟩, ?_⟩
          simp only [List.length_cons]
          omega
      · cases known : DataType.ofTag? tag with
        | none =>
          rw [known] at behind
          cases behind
        | some t =>
          rw [known] at behind
          cases behind
          exact ⟨_, encodeType_flat known levels, by simp only [List.length_cons, List.length_nil]; omega⟩

theorem respells_schema : Respells parseSchema encodeSchema := by
  intro input rest s ran
  obtain ⟨fields, left, found, last⟩ := found_bind.1 ran
  cases last
  exact (respells_type maxLevels).field.counted found

/-! ### Batch headers -/

theorem respells_pair {make : Nat → Nat → α} {first second : α → Nat} (own : ∀ m n, first (make m n) = m)
    (own' : ∀ m n, second (make m n) = n) :
    Respells (do return make (← varint) (← varint)) fun a => encodePair (first a) (second a) := by
  intro input rest a ran
  obtain ⟨m, left, number, ran⟩ := found_bind.1 ran
  obtain ⟨n, left', number', last⟩ := found_bind.1 ran
  cases last
  obtain ⟨x, hx, less⟩ := respells_varint number
  obtain ⟨y, hy, less'⟩ := respells_varint number'
  refine ⟨x ++ y, ?_, by rw [List.length_append]; omega⟩
  show encodePair (first (make m n)) (second (make m n)) = _
  rw [own, own']
  exact bind_eq_ok.2 ⟨x, hx, bind_eq_ok.2 ⟨y, hy, rfl⟩⟩

theorem respells_batchHeader : Respells parseBatchHeader encodeBatchHeader := by
  intro input rest header ran
  obtain ⟨rows, left, number, ran⟩ := found_bind.1 ran
  obtain ⟨nodes, left₁, nodes_found, ran⟩ := found_bind.1 ran
  obtain ⟨regions, left₂, regions_found, last⟩ := found_bind.1 ran
  cases last
  have node : Respells parseNode fun n => encodePair n.length n.nullCount :=
    respells_pair (fun _ _ => rfl) (fun _ _ => rfl)
  have region : Respells parseRegion fun r => encodePair r.offset r.length :=
    respells_pair (fun _ _ => rfl) (fun _ _ => rfl)
  obtain ⟨x, hx, less⟩ := respells_varint number
  obtain ⟨y, hy, less₁⟩ := node.counted nodes_found
  obtain ⟨z, hz, less₂⟩ := region.counted regions_found
  refine ⟨x ++ y ++ z, bind_eq_ok.2 ⟨x, hx, bind_eq_ok.2 ⟨y, hy, bind_eq_ok.2 ⟨z, hz, rfl⟩⟩⟩, ?_⟩
  rw [List.length_append, List.length_append]
  omega

/-! ### Metadata blocks -/

theorem respells_header (kind : MessageKind) : Respells (parseHeader kind) encodeHeader := by
  intro input rest header ran
  cases kind with
  | schema =>
    obtain ⟨s, left, found, last⟩ := found_bind.1 ran
    cases last
    exact respells_schema found
  | batch =>
    obtain ⟨b, left, found, last⟩ := found_bind.1 ran
    cases last
    exact respells_batchHeader found

theorem respells_block : Respells parseBlock encode := by
  intro input rest m ran
  obtain ⟨⟨kind, length⟩, left, prelude, ran⟩ := found_bind.1 ran
  obtain ⟨header, left', found, last⟩ := found_bind.1 ran
  cases last
  obtain ⟨number, rfl, spelled⟩ := parsePrelude_eq_ok.1 prelude
  obtain ⟨x, hx, less⟩ := respells_varint (varint_eq_ok.2 spelled)
  obtain ⟨y, hy, less'⟩ := respells_header kind found
  refine ⟨_, bind_eq_ok.2 ⟨x, hx, bind_eq_ok.2 ⟨y, hy, rfl⟩⟩, ?_⟩
  simp only [List.length_append, List.length_cons, List.length_nil]
  omega

end Metadata

/-! ## Schemas that can be read -/

theorem Schema.encode_eq_ok_iff {s : Schema} :
    (∃ x, s.encode = .ok x) ↔ ∃ x, Metadata.encodeSchema s = .ok x := by
  rw [Schema.encode, Metadata.encode_eq_ok_iff]
  exact and_iff_right (show 0 < wordSize by decide)

theorem Schema.decode_eq_ok {s : Schema} {input : Bytes} :
    Schema.decode input = .ok s ↔ ∃ length, Metadata.decode input = .ok ⟨.schema s, length⟩ := by
  rw [Schema.decode, bind_eq_ok]
  constructor
  · rintro ⟨⟨header, length⟩, read, h⟩
    cases header with
    | schema s =>
      cases h
      exact ⟨length, read⟩
    | batch _ => cases h
  · rintro ⟨length, read⟩
    exact ⟨_, read, rfl⟩

namespace Metadata

/-- The schemas that can be written are those of no more than `maxLevels` levels without an empty struct, and just
those are read from some bytes. All metadata that is read can be written again, in no more bytes than the parser
took; reading them gives the same metadata. -/
theorem encode_canonical :
    (∀ s : Schema, (∃ x, s.encode = .ok x) ↔
      s.InMemory ∧ ∀ level t, s.Holds level t → level ≤ maxLevels ∧ t ≠ .struct []) ∧
    (∀ s : Schema, (∃ x, s.encode = .ok x) ↔ ∃ d, Schema.decode d = .ok s) ∧
    ∀ (d : Bytes) (m : Metadata), decode d = .ok m → ∃ rest e, parseBlock d = .ok (m, rest) ∧ encode m = .ok e ∧
      decode e = .ok m ∧ e.length + rest.length ≤ d.length := by
  have again {d : Bytes} {m : Metadata} (h : decode d = .ok m) : ∃ rest e, parseBlock d = .ok (m, rest) ∧
      encode m = .ok e ∧ decode e = .ok m ∧ e.length + rest.length ≤ d.length := by
    obtain ⟨rest, found⟩ := decode_eq_ok.1 h
    obtain ⟨e, written, less⟩ := respells_block found
    have back := decode_encode written []
    rw [List.append_nil] at back
    exact ⟨rest, e, found, written, back, less⟩
  refine ⟨fun s => Schema.encode_eq_ok_iff.trans encodeSchema_eq_ok_iff, fun s => ⟨?_, ?_⟩, fun d m => again⟩
  · rintro ⟨x, h⟩
    have back := decode_encode h []
    rw [List.append_nil] at back
    exact ⟨x, Schema.decode_eq_ok.2 ⟨0, back⟩⟩
  · rintro ⟨d, h⟩
    obtain ⟨length, read⟩ := Schema.decode_eq_ok.1 h
    obtain ⟨-, e, -, written, -⟩ := again read
    exact Schema.encode_eq_ok_iff.2 (encode_eq_ok_iff.1 ⟨e, written⟩).2

/-- A schema message in a spelling of its own: the body length is two to the sixty-fourth, whose only bit is dropped,
the counts are padded, and two bytes follow. -/
def overlong : Bytes :=
  [1, 1] ++ [128, 128, 128, 128, 128, 128, 128, 128, 128, 2] ++ [129, 128, 0] ++ [129, 0] ++ [97, 0, 2] ++ [7, 7]

theorem encode_canonical_overlong : ∃ m e, decode overlong = .ok m ∧ parseBlock overlong = .ok (m, [7, 7]) ∧
    encode m = .ok e ∧ decode e = .ok m ∧ e = [1, 1, 0, 1, 1, 97, 0, 2] := by
  have read : decode overlong = .ok ⟨.schema ⟨[⟨"a", .fixed .int8, false⟩]⟩, 0⟩ := by decide +kernel
  obtain ⟨-, e, -, written, back, -⟩ := encode_canonical.2.2 overlong _ read
  have taken : parseBlock overlong = .ok (⟨.schema ⟨[⟨"a", .fixed .int8, false⟩]⟩, 0⟩, [7, 7]) := by decide +kernel
  have short : encode ⟨.schema ⟨[⟨"a", .fixed .int8, false⟩]⟩, 0⟩ = .ok [1, 1, 0, 1, 1, 97, 0, 2] := by decide +kernel
  exact ⟨_, e, read, taken, written, back, Except.ok.inj (written.symm.trans short)⟩

end Metadata

end ColumnStream
