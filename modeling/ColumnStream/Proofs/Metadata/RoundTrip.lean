/-
Metadata read back. A parser `Reads` a value from some bytes if it takes just these off the front,
whatever follows them; what the encoder writes of each thing is read by the parser of that thing,
so that a metadata block is read back with any bytes after it, the padding among them.
-/
import ColumnStream.Metadata.Decode
import ColumnStream.Metadata.Encode
import ColumnStream.Proofs.Result
import Mathlib.Data.List.Forall2
import Mathlib.Tactic

namespace ColumnStream

/-! ## Texts -/

theorem toList_loop_eq (b : ByteArray) (i : Nat) (read : List UInt8) :
    ByteArray.toList.loop b i read = read.reverse ++ b.data.toList.drop i := by
  fun_induction ByteArray.toList.loop b i read with
  | case1 i read more ih =>
    have inside : i < b.data.toList.length := by simpa using more
    rw [ih, List.drop_eq_getElem_cons inside, List.reverse_cons, List.append_assoc]
    have : b.get! i = b.data.toList[i] := by
      cases b
      simp [ByteArray.get!, show i < _ from by simpa using inside]
    rw [this]
    rfl
  | case2 i read past => simp [List.drop_eq_nil_of_le (show b.data.toList.length ≤ i by simpa using past)]

theorem toList_eq (b : ByteArray) : b.toList = b.data.toList := by
  rw [ByteArray.toList, toList_loop_eq]
  rfl

theorem Bytes.text?_ofText (s : String) : Bytes.text? (Bytes.ofText s) = some s := by
  have same : (⟨(Bytes.ofText s).toArray⟩ : ByteArray) = s.toByteArray := by
    show ByteArray.mk (s.toByteArray.toList).toArray = _
    rw [toList_eq]
  rw [Bytes.text?, same, String.fromUTF8?, dif_pos s.isValidUTF8]
  rfl

/-! ## Numbers -/

theorem Varint.encode_eq_ok_iff {n : Nat} : (∃ x, encode n = .ok x) ↔ n < wordSize := by
  constructor
  · rintro ⟨x, h⟩
    unfold encode at h
    split at h
    · assumption
    · cases h
  · intro less
    exact ⟨_, if_pos less⟩

/-! ## Parsers that read a value from its bytes -/

namespace Parser

/-- The parser takes just these bytes off the front and finds `a`. -/
def Reads {α : Type} (p : Parser α) (bytes : Bytes) (a : α) : Prop := ∀ rest, p (bytes ++ rest) = .ok (a, rest)

variable {α β : Type}

theorem bind_apply {p : Parser α} {f : α → Parser β} {a : α} {input rest : Bytes} (h : p input = .ok (a, rest)) :
    (p >>= f) input = f a rest := by
  show (p input >>= fun r => f r.1 r.2) = _
  rw [h]
  rfl

theorem bind_stop {p : Parser α} {f : α → Parser β} {reason : Stop} {input : Bytes} (h : p input = .error reason) :
    (p >>= f) input = .error reason := by
  show (p input >>= fun r => f r.1 r.2) = _
  rw [h]
  rfl

theorem Reads.pure (a : α) : Reads (pure a) [] a := fun _ => rfl

theorem Reads.bind {p : Parser α} {f : α → Parser β} {x y : Bytes} {a : α} {b : β} (h : Reads p x a)
    (h' : Reads (f a) y b) : Reads (p >>= f) (x ++ y) b := by
  intro rest
  rw [List.append_assoc, bind_apply (h _), h' rest]

/-- A last step that takes no bytes. -/
theorem Reads.map {p : Parser α} {f : α → Parser β} {x : Bytes} {a : α} {b : β} (h : Reads p x a)
    (h' : Reads (f a) [] b) : Reads (p >>= f) x b := by
  have := h.bind h'
  rwa [List.append_nil] at this

theorem reads_byte (b : UInt8) : Reads byte [b] b := fun _ => rfl

theorem varint_eq_ok {input : Bytes} {read : Nat × Bytes} :
    varint input = .ok read ↔ Varint.decode input = .ok read := by
  unfold varint
  split <;> rename_i found <;> simp [found]

theorem reads_varint {n : Nat} {x : Bytes} (h : Varint.encode n = .ok x) : Reads varint x n := by
  intro rest
  rw [varint, Varint.decode_encode h]

theorem reads_bytes (x : Bytes) : Reads (bytes x.length) x x := by
  intro rest
  simp [bytes]

/-! ### Items in a row -/

open Parsing (timesOnto times counted)

theorem timesOnto_onto (item : Parser α) (read : Array α) (count : Nat) :
    timesOnto item read count = (read ++ ·) <$> timesOnto item #[] count := by
  induction count generalizing read with
  | zero => simp [timesOnto]
  | succ count ih =>
    have own (read : Array α) :
        timesOnto item read (count + 1) = item >>= fun a => timesOnto item (read.push a) count := rfl
    rw [own, own, map_bind]
    congr 1
    funext a
    rw [ih, ih (#[].push a), ← comp_map]
    congr 1
    funext found
    simp

/-- The room that is made shows in nothing that is read. -/
theorem times_eq (count : Nat) (item : Parser α) : times count item = Array.toList <$> timesOnto item #[] count := by
  funext input
  rw [times, map_eq_pure_bind]
  exact bind_apply (p := room count) rfl

theorem times_zero (item : Parser α) : times 0 item = pure [] := by
  rw [times_eq, timesOnto, map_pure]

theorem times_succ (count : Nat) (item : Parser α) :
    times (count + 1) item = (do return (← item) :: (← times count item)) := by
  have own : timesOnto item #[] (count + 1) = item >>= fun a => timesOnto item (#[].push a) count := rfl
  rw [times_eq, times_eq, own, map_bind]
  congr 1
  funext a
  rw [timesOnto_onto, ← comp_map, bind_pure_comp, ← comp_map]
  congr 1
  funext found
  simp

theorem reads_times {item : Parser α} {parts : List Bytes} {items : List α}
    (each : List.Forall₂ (Reads item) parts items) : Reads (times items.length item) parts.flatten items := by
  induction each with
  | nil =>
    rw [List.length_nil, times_zero]
    exact .pure []
  | cons first _ ih =>
    rw [List.length_cons, times_succ]
    exact first.bind (ih.map (.pure _))

end Parser

namespace Metadata

open ColumnStream.Parser
open Parsing (times counted)

variable {α : Type}

theorem forall₂_of_mapM {write : α → Result Bytes} {items : List α} {parts : List Bytes}
    (h : items.mapM write = .ok parts) : List.Forall₂ (fun x a => write a = .ok x) parts items := by
  induction items generalizing parts with
  | nil =>
    cases h
    exact .nil
  | cons a items ih =>
    rw [List.mapM_cons] at h
    obtain ⟨x, hx, h⟩ := bind_eq_ok.1 h
    obtain ⟨rest, hrest, h⟩ := bind_eq_ok.1 h
    cases h
    exact .cons hx (ih hrest)

theorem encodeAll_ok {write : α → Result Bytes} {items : List α} {x : Bytes} (h : encodeAll write items = .ok x) :
    ∃ count parts, Varint.encode items.length = .ok count ∧
      List.Forall₂ (fun x a => write a = .ok x) parts items ∧ x = count ++ parts.flatten := by
  obtain ⟨count, hcount, h⟩ := bind_eq_ok.1 h
  obtain ⟨parts, hparts, h⟩ := bind_eq_ok.1 h
  cases h
  exact ⟨count, parts, hcount, forall₂_of_mapM hparts, rfl⟩

theorem forall₂_reads {write : α → Result Bytes} {item : Parser α} {items : List α} {parts : List Bytes}
    (written : List.Forall₂ (fun x a => write a = .ok x) parts items)
    (each : ∀ a ∈ items, ∀ x, write a = .ok x → Reads item x a) : List.Forall₂ (Reads item) parts items := by
  induction written with
  | nil => exact .nil
  | cons first _ ih =>
    exact .cons (each _ (List.mem_cons_self ..) _ first) (ih fun a ha => each a (List.mem_cons_of_mem _ ha))

theorem reads_counted {write : α → Result Bytes} {item : Parser α} {items : List α} {x : Bytes}
    (h : encodeAll write items = .ok x) (each : ∀ a ∈ items, ∀ x, write a = .ok x → Reads item x a) :
    Reads (counted item) x items := by
  obtain ⟨count, parts, hcount, written, rfl⟩ := encodeAll_ok h
  exact (reads_varint hcount).bind (reads_times (forall₂_reads written each))

/-! ## Schemas -/

theorem reads_field {write : DataType → Result Bytes} {type : Parser DataType} {f : Field} {x : Bytes}
    (h : encodeField write f = .ok x) (each : ∀ x, write f.type = .ok x → Reads type x f.type) :
    Reads (parseField type) x f := by
  obtain ⟨length, hlength, h⟩ := bind_eq_ok.1 h
  obtain ⟨t, ht, h⟩ := bind_eq_ok.1 h
  cases h
  rw [List.append_assoc, List.append_assoc]
  refine (reads_varint hlength).bind ((reads_bytes _).bind ((reads_byte _).bind ((each t ht).map ?_)))
  rw [Bytes.text?_ofText]
  obtain ⟨name, type, nullable⟩ := f
  cases nullable <;> exact Reads.pure _

/-- Types are read back at the level they were written at. -/
theorem reads_type (levels : Nat) : ∀ {t : DataType} {x : Bytes}, encodeType levels t = .ok x →
    Reads (parseType levels) x t := by
  induction levels with
  | zero =>
    intro t x h
    cases h
  | succ levels ih =>
    intro t x h
    have flat (isFlat : t.isNested = false) : Reads (parseType (levels + 1)) [t.tag] t := by
      refine (reads_byte t.tag).map ?_
      have list : t.tag ≠ DataType.listTag := by
        cases t <;> first | decide | (rename_i p; cases p <;> decide) | cases isFlat
      have struct : t.tag ≠ DataType.structTag := by
        cases t <;> first | decide | (rename_i p; cases p <;> decide) | cases isFlat
      rw [if_neg list, if_neg struct, DataType.ofTag?_tag isFlat]
      exact Reads.pure _
    cases t with
    | boolean | fixed _ | binary | utf8 =>
      cases h
      exact flat rfl
    | list item =>
      obtain ⟨x, hx, h⟩ := bind_eq_ok.1 h
      cases h
      exact (reads_byte _).bind ((reads_field hx fun x hx => ih hx).map (Reads.pure _))
    | struct members =>
      rw [encodeType] at h
      split at h
      · cases h
      · rename_i some
        obtain ⟨x, hx, h⟩ := bind_eq_ok.1 h
        cases h
        obtain ⟨count, parts, hcount, written, rfl⟩ := encodeAll_ok hx
        have each := forall₂_reads written fun f _ x hx => reads_field hx fun x hx => ih hx
        have counted : members.length ≠ 0 := by simpa using some
        refine (reads_byte _).bind ?_
        show Reads (varint >>= _) _ _
        refine (reads_varint hcount).bind ?_
        rw [if_neg counted]
        exact (reads_times each).map (Reads.pure _)

theorem reads_schema {schema : Schema} {x : Bytes} (h : encodeSchema schema = .ok x) :
    Reads parseSchema x schema :=
  (reads_counted h fun _ _ _ hf => reads_field hf fun _ ht => reads_type maxLevels ht).map (Reads.pure _)

/-! ## Batch headers -/

theorem reads_pair (make : Nat → Nat → α) {m n : Nat} {x : Bytes} (h : encodePair m n = .ok x) :
    Reads (do return make (← varint) (← varint)) x (make m n) := by
  obtain ⟨first, hfirst, h⟩ := bind_eq_ok.1 h
  obtain ⟨second, hsecond, h⟩ := bind_eq_ok.1 h
  cases h
  exact (reads_varint hfirst).bind ((reads_varint hsecond).map (Reads.pure _))

theorem reads_batchHeader {header : BatchHeader} {x : Bytes} (h : encodeBatchHeader header = .ok x) :
    Reads parseBatchHeader x header := by
  obtain ⟨rows, hrows, h⟩ := bind_eq_ok.1 h
  obtain ⟨nodes, hnodes, h⟩ := bind_eq_ok.1 h
  obtain ⟨regions, hregions, h⟩ := bind_eq_ok.1 h
  cases h
  rw [List.append_assoc]
  exact (reads_varint hrows).bind <|
    (reads_counted hnodes fun _ _ _ hn => reads_pair Node.mk hn).bind <|
      (reads_counted hregions fun _ _ _ hr => reads_pair Region.mk hr).map (Reads.pure _)

/-! ## Headers that can be written -/

theorem encodeAll_eq_ok {write : α → Result Bytes} {items : List α} (count : items.length < wordSize)
    (each : ∀ a ∈ items, ∃ x, write a = .ok x) : ∃ x, encodeAll write items = .ok x := by
  have all : ∃ parts, items.mapM write = .ok parts := by
    clear count
    induction items with
    | nil => exact ⟨[], rfl⟩
    | cons a items ih =>
      obtain ⟨x, hx⟩ := each a (List.mem_cons_self ..)
      obtain ⟨parts, hparts⟩ := ih fun b hb => each b (List.mem_cons_of_mem _ hb)
      exact ⟨x :: parts, by rw [List.mapM_cons, hx, ok_bind, hparts]; rfl⟩
  obtain ⟨parts, hparts⟩ := all
  exact ⟨_, by rw [encodeAll, Varint.encode, if_pos count, ok_bind, hparts]; rfl⟩

theorem encodePair_eq_ok {m n : Nat} (hm : m < wordSize) (hn : n < wordSize) : ∃ x, encodePair m n = .ok x :=
  ⟨_, by rw [encodePair, Varint.encode, if_pos hm, ok_bind, Varint.encode, if_pos hn]; rfl⟩

/-- Every number of the header is a machine word. -/
structure Fits (header : BatchHeader) : Prop where
  rows : header.numRows < wordSize
  nodes : header.nodes.length < wordSize
  node : ∀ n ∈ header.nodes, n.length < wordSize ∧ n.nullCount < wordSize
  regions : header.regions.length < wordSize
  region : ∀ r ∈ header.regions, r.offset + r.length < wordSize

theorem encode_eq_ok {header : BatchHeader} (fits : Fits header) {length : Nat} (word : length < wordSize) :
    ∃ x, encode ⟨.batch header, length⟩ = .ok x := by
  obtain ⟨nodes, hnodes⟩ : ∃ x, encodeAll (fun (n : Node) => encodePair n.length n.nullCount) header.nodes = .ok x :=
    encodeAll_eq_ok fits.nodes fun n hn => encodePair_eq_ok (fits.node n hn).1 (fits.node n hn).2
  obtain ⟨regions, hregions⟩ :
      ∃ x, encodeAll (fun (r : Region) => encodePair r.offset r.length) header.regions = .ok x := by
    refine encodeAll_eq_ok fits.regions fun r hr => ?_
    have := fits.region r hr
    exact encodePair_eq_ok (by omega) (by omega)
  exact ⟨_, by
    rw [encode, Varint.encode, if_pos word, ok_bind, encodeHeader, encodeBatchHeader, Varint.encode, if_pos fits.rows,
      ok_bind, hnodes, ok_bind, hregions]
    rfl⟩

/-! ## Metadata blocks -/

theorem reads_prelude (kind : MessageKind) {length : Nat} {x : Bytes} (h : Varint.encode length = .ok x) :
    Reads parsePrelude ([metadataVersion, kind.tag] ++ x) (kind, length) := by
  show Reads (byte >>= _) ([metadataVersion] ++ ([kind.tag] ++ x)) _
  refine (reads_byte _).bind ?_
  rw [if_neg (by simp)]
  refine (reads_byte _).bind ?_
  have known : kindOf? kind.tag = some kind := by cases kind <;> rfl
  rw [known]
  exact (reads_varint h).map (Reads.pure _)

theorem run_eq {p : Parser α} {x : Bytes} {a : α} (h : Reads p x a) (report : ParseProblem → Error) (rest : Bytes) :
    p.run report (x ++ rest) = .ok (a, rest) := by
  rw [run, h]

theorem run_eq_ok {p : Parser α} {report : ParseProblem → Error} {input : Bytes} {read : α × Bytes} :
    p.run report input = .ok read ↔ p input = .ok read := by
  unfold run
  split <;> rename_i found <;> simp [found, fail]

theorem encode_ok {m : Metadata} {x : Bytes} (h : encode m = .ok x) :
    ∃ length header, Varint.encode m.bodyLength = .ok length ∧ encodeHeader m.header = .ok header ∧
      x = [metadataVersion, m.header.kind.tag] ++ length ++ header := by
  obtain ⟨length, hlength, h⟩ := bind_eq_ok.1 h
  obtain ⟨header, hheader, h⟩ := bind_eq_ok.1 h
  cases h
  exact ⟨length, header, hlength, hheader, rfl⟩

theorem encode_word {m : Metadata} {x : Bytes} (h : encode m = .ok x) : m.bodyLength < wordSize := by
  obtain ⟨length, -, hlength, -⟩ := encode_ok h
  exact Varint.encode_eq_ok_iff.1 ⟨length, hlength⟩

/-- A metadata block is read back whole, with whatever follows it left aside. -/
theorem decode_encode {m : Metadata} {x : Bytes} (h : encode m = .ok x) (rest : Bytes) :
    decode (x ++ rest) = .ok m := by
  obtain ⟨length, header, hlength, hheader, rfl⟩ := encode_ok h
  obtain ⟨kind, bodyLength⟩ := m
  rw [decode, List.append_assoc _ _ rest, run_eq (reads_prelude _ hlength), ok_bind]
  cases kind with
  | schema schema =>
    simp only [Header.kind]
    rw [run_eq (reads_schema hheader), ok_bind]
    rfl
  | batch batch =>
    simp only [Header.kind]
    rw [run_eq (reads_batchHeader hheader), ok_bind]
    rfl

/-- The declared length of the body is found without reading the header. -/
theorem parsePrelude_encode {m : Metadata} {x : Bytes} (h : encode m = .ok x) (rest : Bytes) :
    ∃ left, parsePrelude (x ++ rest) = .ok ((m.header.kind, m.bodyLength), left) := by
  obtain ⟨length, header, hlength, hheader, rfl⟩ := encode_ok h
  rw [List.append_assoc]
  exact ⟨_, reads_prelude _ hlength _⟩

theorem kindOf?_eq_some {tag : UInt8} {kind : MessageKind} : kindOf? tag = some kind ↔ tag = kind.tag := by
  constructor
  · intro found
    exact (eq_of_beq (List.find?_some (p := fun k => MessageKind.tag k == tag) found)).symm
  · rintro rfl
    cases kind <;> rfl

/-- A prelude is the version, the byte of a kind, and the length of the body. -/
theorem parsePrelude_eq_ok {input rest : Bytes} {kind : MessageKind} {length : Nat} :
    parsePrelude input = .ok ((kind, length), rest) ↔
      ∃ number, input = metadataVersion :: kind.tag :: number ∧ Varint.decode number = .ok (length, rest) := by
  constructor
  · intro h
    rcases input with _ | ⟨version, _ | ⟨tag, number⟩⟩
    · cases h
    · rw [parsePrelude_eq, bind_apply (p := byte) rfl] at h
      split at h <;> cases h
    · rw [parsePrelude_eq, bind_apply (p := byte) rfl] at h
      split at h
      · cases h
      · rename_i same
        rw [bind_apply (p := byte) rfl] at h
        cases known : kindOf? tag with
        | none =>
          simp only [known] at h
          cases h
        | some kind' =>
          simp only [known] at h
          cases ran : varint number with
          | error reason =>
            rw [bind_stop ran] at h
            cases h
          | ok value =>
            rw [bind_apply ran] at h
            cases h
            exact ⟨number, by rw [of_not_not same, kindOf?_eq_some.1 known], varint_eq_ok.1 ran⟩
  · rintro ⟨number, rfl, read⟩
    rw [parsePrelude_eq, bind_apply (p := byte) rfl, if_neg (by simp), bind_apply (p := byte) rfl,
      kindOf?_eq_some.2 rfl]
    simp only
    rw [bind_apply (varint_eq_ok.2 read)]
    rfl

/-- Whatever is read as the metadata of a batch begins with the version and the kind. -/
theorem decode_batch {x : Bytes} {m : Metadata} (h : decode x = .ok m) (batch : m.header.kind = .batch) :
    ∃ rest, x = metadataVersion :: MessageKind.batch.tag :: rest := by
  obtain ⟨⟨⟨kind, bodyLength⟩, left⟩, prelude, h⟩ := bind_eq_ok.1 h
  obtain rfl : kind = .batch := by
    cases kind with
    | batch => rfl
    | schema =>
      obtain ⟨⟨schema, _⟩, -, h⟩ := bind_eq_ok.1 h
      cases h
      cases batch
  obtain ⟨rest, rfl, -⟩ := parsePrelude_eq_ok.1 (run_eq_ok.1 prelude)
  exact ⟨rest, rfl⟩

end Metadata

end ColumnStream
