/-
How far a parser can go. Whatever counts the metadata declares, every field, node and region that is found has taken
bytes of its own, so there are no more of them than half the bytes, and no loop makes more rounds than there are bytes.
`Metered` takes the same steps with a meter, which goes on counting up to where a parse stops: the rounds of all loops,
those inside one another included, and the deepest level of nesting that was entered. The grammar is run with it as it
stands, so that what the meter shows of it is what a parser does.
-/
import ColumnStream.Proofs.Metadata.Canonical

namespace ColumnStream

theorem DataType.nodeCounts_eq_sum (fields : List Field) :
    nodeCounts fields = (fields.map (·.type.nodeCount)).sum := by
  induction fields with
  | nil => rfl
  | cons f fields ih => rw [List.map_cons, List.sum_cons, ← ih, nodeCounts]

/-! ## Bytes taken -/

namespace Parser

open Parsing (times counted)

variable {α : Type}

theorem byte_takes {input rest : Bytes} {b : UInt8} (h : byte input = .ok (b, rest)) :
    1 + rest.length = input.length := by
  rw [Metadata.byte_ok h, List.length_cons, Nat.add_comm]

theorem varint_takes {input rest : Bytes} {n : Nat} (h : varint input = .ok (n, rest)) :
    1 + rest.length ≤ input.length := by
  obtain ⟨m, found, -⟩ := Varint.decode_eq_ok.1 (varint_eq_ok.1 h)
  obtain ⟨taken, some, sizes, -⟩ := Varint.number_lt found
  omega

/-- What is found takes at least so many bytes off the front. -/
def Takes (cost : α → Nat) (p : Parser α) : Prop :=
  ∀ ⦃input rest : Bytes⦄ ⦃a : α⦄, p input = .ok (a, rest) → cost a + rest.length ≤ input.length

theorem Takes.times {cost : α → Nat} {item : Parser α} (h : Takes cost item) {count : Nat} {input rest : Bytes}
    {items : List α} (ran : times count item input = .ok (items, rest)) :
    (items.map cost).sum + rest.length ≤ input.length := by
  induction count generalizing input items with
  | zero =>
    rw [times_zero] at ran
    cases ran
    simp
  | succ count ih =>
    rw [times_succ] at ran
    obtain ⟨a, left, first, ran⟩ := found_bind.1 ran
    obtain ⟨others, _, further, last⟩ := found_bind.1 ran
    cases last
    have own := h first
    have below := ih further
    rw [List.map_cons, List.sum_cons]
    omega

theorem Takes.counted {cost : α → Nat} {item : Parser α} (h : Takes cost item) :
    Takes (fun items => 1 + (items.map cost).sum) (counted item) := by
  intro input rest items ran
  obtain ⟨count, left, number, ran⟩ := found_bind.1 ran
  have first := varint_takes number
  have others := h.times ran
  simp only
  omega

end Parser

namespace Metadata

open ColumnStream.Parser

theorem field_ok {type : Parser DataType} {input rest : Bytes} {f : Field} (h : parseField type input = .ok (f, rest)) :
    ∃ n name flag input₁ input₂ input₃, varint input = .ok (n, input₁) ∧ bytes n input₁ = .ok (name, input₂) ∧
      byte input₂ = .ok (flag, input₃) ∧ type input₃ = .ok (f.type, rest) := by
  obtain ⟨n, input₁, number, h⟩ := found_bind.1 h
  obtain ⟨name, input₂, taken, h⟩ := found_bind.1 h
  obtain ⟨flag, input₃, marked, h⟩ := found_bind.1 h
  obtain ⟨t, input₄, typed, h⟩ := found_bind.1 h
  refine ⟨n, name, flag, input₁, input₂, input₃, number, taken, marked, ?_⟩
  cases spelled : Bytes.text? name with
  | none =>
    rw [spelled] at h
    cases h
  | some text =>
    rw [spelled] at h
    simp only at h
    split at h
    · cases h
      exact typed
    · split at h <;> cases h
      exact typed

/-- Three bytes for the field and for every one below it: the length of its name, its flag and its type. -/
theorem takes_field {type : Parser DataType} (h : Takes (fun t => 1 + 3 * DataType.nodeCounts t.children) type) :
    Takes (fun f => 3 * f.type.nodeCount) (parseField type) := by
  intro input rest f ran
  obtain ⟨n, name, flag, _, _, _, number, taken, marked, typed⟩ := field_ok ran
  have first := varint_takes number
  have second := (bytes_ok taken).2
  have third := byte_takes marked
  have last := h typed
  simp only [DataType.nodeCount_eq] at last ⊢
  omega

theorem takes_type (levels : Nat) : Takes (fun t => 1 + 3 * DataType.nodeCounts t.children) (parseType levels) := by
  induction levels with
  | zero =>
    intro input rest t ran
    cases ran
  | succ levels ih =>
    intro input rest t ran
    rw [parseType_succ] at ran
    obtain ⟨tag, input₁, tagged, ran⟩ := found_bind.1 ran
    have first := byte_takes tagged
    simp only
    split at ran
    · obtain ⟨item, input₂, read, last⟩ := found_bind.1 ran
      cases last
      have below := takes_field ih read
      simp only [DataType.children, DataType.nodeCounts] at below ⊢
      omega
    split at ran
    · obtain ⟨count, input₂, number, ran⟩ := found_bind.1 ran
      split at ran
      · cases ran
      obtain ⟨members, input₃, read, last⟩ := found_bind.1 ran
      cases last
      have second := varint_takes number
      have below := (takes_field ih).times read
      rw [List.sum_map_mul_left, ← DataType.nodeCounts_eq_sum] at below
      simp only [DataType.children]
      omega
    · cases known : DataType.ofTag? tag with
      | none =>
        rw [known] at ran
        cases ran
      | some u =>
        rw [known] at ran
        cases ran
        have flat : ∀ t ∈ DataType.flat, DataType.nodeCounts t.children = 0 := by decide
        rw [flat t (List.mem_of_find?_eq_some known)]
        omega

theorem takes_schema : Takes (fun s => 1 + 3 * s.nodeCount) parseSchema := by
  intro input rest s ran
  obtain ⟨fields, left, read, last⟩ := found_bind.1 ran
  cases last
  have whole := (takes_field (takes_type maxLevels)).counted read
  simp only [List.sum_map_mul_left, ← DataType.nodeCounts_eq_sum] at whole
  exact whole

theorem takes_pair {α : Type} (make : Nat → Nat → α) :
    Takes (fun _ => 2) (do return make (← varint) (← varint)) := by
  intro input rest a ran
  obtain ⟨m, left, number, ran⟩ := found_bind.1 ran
  obtain ⟨n, left', number', last⟩ := found_bind.1 ran
  cases last
  have first := varint_takes number
  have second := varint_takes number'
  simp only
  omega

theorem takes_node : Takes (fun _ => 2) parseNode := takes_pair Node.mk

theorem takes_region : Takes (fun _ => 2) parseRegion := takes_pair Region.mk

theorem takes_batchHeader : Takes (fun h => 3 + 2 * (h.nodes.length + h.regions.length)) parseBatchHeader := by
  intro input rest h ran
  obtain ⟨rows, left, number, ran⟩ := found_bind.1 ran
  obtain ⟨nodes, left', read, ran⟩ := found_bind.1 ran
  obtain ⟨regions, left'', read', last⟩ := found_bind.1 ran
  cases last
  have first := varint_takes number
  have second := takes_node.counted read
  have third := takes_region.counted read'
  simp only [List.map_const', List.sum_replicate, smul_eq_mul] at second third ⊢
  omega

end Metadata

/-! ## Parsers with a meter -/

/-- Rounds of loops that were begun, the level of nesting that is read, and the deepest level that was entered. -/
structure Meter where
  rounds : Nat := 0
  level : Nat := 0
  deepest : Nat := 0
  deriving DecidableEq, Repr

/-- A parser with a meter, which can still be read where the parser stops. -/
def Metered (α : Type) : Type := Bytes → Meter → Except Stop (α × Bytes) × Meter

namespace Metered

variable {α β : Type}

instance : Monad Metered where
  pure a := fun input meter => (.ok (a, input), meter)
  bind m f := fun input meter =>
    match m input meter with
    | (.error reason, meter) => (.error reason, meter)
    | (.ok (a, rest), meter) => f a rest meter

/-- A parser without loops. -/
def plain (p : Parser α) : Metered α := fun input meter => (p input, meter)

def round (item : Metered α) : Metered α := fun input meter => item input { meter with rounds := meter.rounds + 1 }

/-- Where the parser goes a level down the meter goes with it, and comes back. -/
def nested (m : Metered α) : Metered α := fun input meter =>
  let level := meter.level + 1
  let (out, meter') := m input { meter with level, deepest := max meter.deepest level }
  (out, { meter' with level := meter.level })

instance : Parsing Metered where
  byte := plain Parser.byte
  varint := plain Parser.varint
  bytes count := plain (Parser.bytes count)
  refuse cause := plain (Parser.refuse cause)
  room count := plain (Parser.room count)
  round := round
  nested := nested

theorem round_apply (item : Metered α) (input : Bytes) (meter : Meter) :
    Parsing.round item input meter = item input { meter with rounds := meter.rounds + 1 } := rfl

/-! ### What the meter shows -/

open ColumnStream.Parser (found_bind bind_cases)

/-- The metered parser is this parser. It takes `least` bytes more than it makes rounds, and where it stops it has made
at most `extra` rounds more than there are bytes. It goes no more than `height` levels down, and comes back. -/
structure Meters (least extra height : Nat) (m : Metered α) (p : Parser α) : Prop where
  same : ∀ input meter, (m input meter).1 = p input
  found : ∀ {input rest : Bytes} {a : α} (meter : Meter), p input = .ok (a, rest) →
    (m input meter).2.rounds + least + rest.length ≤ meter.rounds + input.length
  stopped : ∀ {input : Bytes} {reason : Stop} (meter : Meter), p input = .error reason →
    (m input meter).2.rounds ≤ meter.rounds + input.length + extra
  level : ∀ input meter, (m input meter).2.level = meter.level
  deepest : ∀ input meter, (m input meter).2.deepest ≤ max meter.deepest (meter.level + height)

section

variable {least least' extra extra' height : Nat} {m : Metered α} {p : Parser α}

/-- The second parser goes on with the meter of the first, unless that stops. -/
theorem bind_found {f : α → Metered β} {input rest : Bytes} {meter : Meter} {a : α}
    (h : (m input meter).1 = .ok (a, rest)) : (m >>= f) input meter = f a rest (m input meter).2 := by
  show (match m input meter with | (.error reason, meter) => _ | (.ok (a, rest), meter) => f a rest meter) = _
  revert h
  rcases m input meter with ⟨out, meter'⟩
  rintro rfl
  rfl

theorem bind_stopped {f : α → Metered β} {input : Bytes} {meter : Meter} {reason : Stop}
    (h : (m input meter).1 = .error reason) : (m >>= f) input meter = (.error reason, (m input meter).2) := by
  show (match m input meter with | (.error reason, meter) => _ | (.ok (a, rest), meter) => f a rest meter) = _
  revert h
  rcases m input meter with ⟨out, meter'⟩
  rintro rfl
  rfl

namespace Meters

theorem plain (takes : ∀ {input rest : Bytes} {a : α}, p input = .ok (a, rest) → least + rest.length ≤ input.length) :
    Meters least extra height (plain p) p where
  same input meter := rfl
  found meter h := by
    have := takes h
    simp only [Metered.plain]
    omega
  stopped meter h := by
    simp only [Metered.plain]
    omega
  level input meter := rfl
  deepest input meter := le_max_left ..

theorem refuse (cause : Error) : Meters least extra height (Parsing.refuse cause) (Parsing.refuse cause : Parser α) :=
  plain fun h => by cases h

theorem pure (a : α) : Meters 0 extra height (pure a) (pure a) := plain fun h => by cases h; omega

theorem weaken (h : Meters least extra height m p) (le : least' ≤ least) : Meters least' extra height m p where
  same := h.same
  found meter ran := by
    have := h.found meter ran
    omega
  stopped := h.stopped
  level := h.level
  deepest := h.deepest

theorem bind {f : α → Metered β} {g : α → Parser β} (first : Meters least extra height m p) (behind : Nat)
    (next : ∀ a, Meters behind extra' height (f a) (g a)) (le : extra' ≤ least + extra) :
    Meters (least + behind) extra height (m >>= f) (p >>= g) where
  same input meter := by
    have same := first.same input meter
    rcases bind_cases p g input with ⟨reason, stopped, after⟩ | ⟨a, rest, ran, after⟩
    · rw [after, bind_stopped (same.trans stopped)]
    · rw [after, bind_found (same.trans ran), (next a).same]
  found {input rest b} meter h := by
    obtain ⟨a, left, ran, last⟩ := found_bind.1 h
    rw [bind_found ((first.same input meter).trans ran)]
    have before := first.found meter ran
    have behind := (next a).found (m input meter).2 last
    omega
  stopped {input reason} meter h := by
    have same := first.same input meter
    rcases bind_cases p g input with ⟨reason', stopped, after⟩ | ⟨a, left, ran, after⟩
    · rw [bind_stopped (same.trans stopped)]
      exact first.stopped meter stopped
    · rw [bind_found (same.trans ran)]
      -- The bytes that the first took make up for the rounds that the second begins in vain.
      have before := first.found meter ran
      have behind := (next a).stopped (m input meter).2 (after.symm.trans h)
      omega
  level input meter := by
    have same := first.same input meter
    rcases bind_cases p g input with ⟨reason, stopped, -⟩ | ⟨a, left, ran, -⟩
    · rw [bind_stopped (same.trans stopped), first.level]
    · rw [bind_found (same.trans ran), (next a).level, first.level]
  deepest input meter := by
    have same := first.same input meter
    have before := first.deepest input meter
    rcases bind_cases p g input with ⟨reason, stopped, -⟩ | ⟨a, left, ran, -⟩
    · rwa [bind_stopped (same.trans stopped)]
    · rw [bind_found (same.trans ran)]
      have behind := (next a).deepest left (m input meter).2
      rw [first.level] at behind
      omega

theorem nested (h : Meters least extra height m p) :
    Meters least extra (height + 1) (Parsing.nested m) (Parsing.nested p) where
  same input meter := h.same input _
  found meter ran := h.found _ ran
  stopped meter ran := h.stopped _ ran
  level input meter := rfl
  deepest input meter := by
    have below := h.deepest input ⟨meter.rounds, meter.level + 1, max meter.deepest (meter.level + 1)⟩
    refine below.trans ?_
    simp only
    omega

/-! ### Loops -/

/-- The round is made up for by the byte that the item takes, except where the item stops. -/
theorem round (h : Meters 1 0 height m p) : Meters 0 1 height (Parsing.round m) (Parsing.round p) where
  same input meter := h.same input _
  found meter ran := by
    have := h.found { meter with rounds := meter.rounds + 1 } ran
    rw [round_apply]
    simp only at this
    omega
  stopped meter ran := by
    have := h.stopped { meter with rounds := meter.rounds + 1 } ran
    rw [round_apply]
    simp only at this
    omega
  level input meter := h.level input _
  deepest input meter := h.deepest input _

theorem timesOnto (h : Meters 1 0 height m p) (read : Array α) (count : Nat) :
    Meters 0 1 height (Parsing.timesOnto m read count) (Parsing.timesOnto p read count) := by
  induction count generalizing read with
  | zero => exact pure read
  | succ count ih => exact h.round.bind 0 (fun a => ih (read.push a)) (le_refl _)

theorem times (h : Meters 1 0 height m p) (count : Nat) :
    Meters 0 1 height (Parsing.times count m) (Parsing.times count p) := by
  have room : Meters 0 1 height (Parsing.room count) (Parsing.room count : Parser Nat) := plain fun ran => by
    cases ran
    omega
  exact room.bind 0 (fun most => (h.timesOnto _ count).bind 0 (fun items => .pure _) (Nat.zero_le _)) (le_refl _)

end Meters

/-! ### The parsers of metadata -/

theorem meters_varint : Meters 1 0 height Parsing.varint Parser.varint := Meters.plain Parser.varint_takes

theorem meters_byte : Meters 1 0 height Parsing.byte Parser.byte := Meters.plain fun ran => (Parser.byte_takes ran).le

theorem meters_bytes (count : Nat) : Meters 0 0 height (Parsing.bytes count) (Parser.bytes count) :=
  Meters.plain fun ran => by
    have := (Metadata.bytes_ok ran).2
    omega

theorem Meters.counted (h : Meters 1 0 height m p) : Meters 1 0 height (Parsing.counted m) (Parsing.counted p) :=
  meters_varint.bind 0 (fun count => h.times count) (by decide)

end

open Metadata

variable {height : Nat}

theorem meters_field {m : Metered DataType} {p : Parser DataType} (h : Meters 1 0 height m p) :
    Meters 3 0 height (Grammar.field m) (Grammar.field p) := by
  refine meters_varint.bind 2 (fun length => ?_) (Nat.zero_le _)
  refine (meters_bytes length).bind 2 (fun name => ?_) (Nat.zero_le _)
  refine meters_byte.bind 1 (fun flag => ?_) (Nat.zero_le _)
  refine h.bind 0 (fun t => ?_) (Nat.zero_le _)
  cases Bytes.text? name with
  | none => exact .refuse _
  | some text =>
    simp only
    split
    · exact .pure _
    · split
      · exact .pure _
      · exact .refuse _

/-- Each level of nesting is entered at its depth, down to the last one. -/
theorem meters_type (levels : Nat) : Meters 1 0 levels (Grammar.type levels) (Grammar.type levels) := by
  induction levels with
  | zero => exact .refuse _
  | succ levels ih =>
    rw [Grammar.type, Grammar.type]
    refine Meters.nested ?_
    refine meters_byte.bind 0 (fun tag => ?_) (Nat.zero_le _)
    have item := meters_field ih
    split
    · exact (item.weaken (Nat.zero_le _)).bind 0 (fun f => .pure _) (Nat.zero_le _)
    · split
      · -- The byte that the count takes makes up for a round that stops.
        refine (meters_varint.bind 0 (fun count => ?_) (le_refl 1)).weaken (Nat.zero_le _)
        split
        · exact .refuse _
        · exact ((item.weaken (by decide)).times count).bind 0 (fun members => .pure _) (Nat.zero_le _)
      · cases DataType.ofTag? tag with
        | none => exact .refuse _
        | some t => exact .pure _

theorem meters_schema : Meters 1 0 maxLevels Grammar.schema Grammar.schema :=
  ((meters_field (meters_type maxLevels)).weaken (by decide)).counted.bind 0 (fun fields => .pure _) (Nat.zero_le _)

theorem meters_pair (make : Nat → Nat → α) :
    Meters 2 0 height (do return make (← Parsing.varint) (← Parsing.varint))
      (do return make (← Parser.varint) (← Parser.varint)) :=
  meters_varint.bind 1 (fun _ => meters_varint.bind 0 (fun _ => .pure _) (Nat.zero_le _)) (Nat.zero_le _)

theorem meters_batchHeader : Meters 3 0 height Grammar.batchHeader Grammar.batchHeader := by
  refine meters_varint.bind 2 (fun rows => ?_) (Nat.zero_le _)
  refine ((meters_pair Node.mk).weaken (by decide)).counted.bind 1 (fun nodes => ?_) (Nat.zero_le _)
  exact ((meters_pair Region.mk).weaken (by decide)).counted.bind 0 (fun regions => .pure _) (Nat.zero_le _)

end Metered

/-! ## Progress -/

/-- The parser leaves a last part of its input that is shorter by so many bytes. -/
def Parser.Advances {α : Type} (least : Nat) (p : Parser α) : Prop :=
  ∀ ⦃input rest : Bytes⦄ ⦃a : α⦄, p input = .ok (a, rest) → rest <:+ input ∧ least + rest.length ≤ input.length

theorem Parser.Orderly.advances {α : Type} {causes : Error → Prop} {p : Parser α} (h : p.Orderly causes) {least : Nat}
    (takes : ∀ {input rest : Bytes} {a : α}, p input = .ok (a, rest) → least + rest.length ≤ input.length) :
    p.Advances least := by
  intro input rest a ran
  obtain ⟨taken, whole, -⟩ := h.found ran
  exact ⟨⟨taken, whole.symm⟩, takes ran⟩

namespace Metadata

open ColumnStream.Parser

variable {α : Type}

theorem advances_prelude : parsePrelude.Advances 3 :=
  orderly_prelude.advances fun {input rest a} ran => by
    obtain ⟨number, rfl, read⟩ := parsePrelude_eq_ok.1 ran
    have := varint_takes (varint_eq_ok.2 read)
    simp only [List.length_cons]
    omega

theorem advances_field (levels : Nat) : (parseField (parseType levels)).Advances 3 :=
  (orderly_field (orderly_type levels)).advances fun ran => by
    have := takes_field (takes_type levels) ran
    simp only [DataType.nodeCount_eq] at this
    omega

theorem advances_pair (make : Nat → Nat → α) : Parser.Advances 2 (do return make (← varint) (← varint)) :=
  (@orderly_pair _ Error.Corrupt make).advances (takes_pair make ·)

/-- On every input what the grammar comes to with a meter is what it comes to without one, in no more rounds than there
are bytes and no deeper than `bottom`. What is found took a first part of the input, and at least two bytes for each
thing in it. -/
structure Progress (bottom : Nat) (things : α → Nat) (p : ∀ (m : Type → Type) [Monad m] [Parsing m], m α) : Prop where
  same : ∀ input, (p Metered input {}).1 = p Parser input
  rounds : ∀ input, (p Metered input {}).2.rounds ≤ input.length
  deepest : ∀ input, (p Metered input {}).2.deepest ≤ bottom
  found : ∀ input rest a, p Parser input = .ok (a, rest) →
    rest <:+ input ∧ 2 * things a + rest.length ≤ input.length

theorem Progress.of_meters {causes : Error → Prop} {least bottom : Nat} {things cost : α → Nat}
    {p : ∀ (m : Type → Type) [Monad m] [Parsing m], m α} (meters : Metered.Meters least 0 bottom (p Metered) (p Parser))
    (orderly : (p Parser).Orderly causes) (takes : (p Parser).Takes cost) (le : ∀ a, 2 * things a ≤ cost a) :
    Progress bottom things p where
  same input := meters.same input {}
  rounds input := by
    cases ran : p Parser input with
    | error reason => exact (meters.stopped {} ran).trans_eq (by simp)
    | ok read =>
      have := meters.found {} ran
      simp only at this
      omega
  deepest input := (meters.deepest input {}).trans_eq (by simp)
  found input rest a ran := by
    obtain ⟨taken, whole, -⟩ := orderly.found ran
    have bytes := takes ran
    have two := le a
    exact ⟨⟨taken, whole.symm⟩, by omega⟩

/-- Whatever is declared, the parsers of metadata go forward: every field takes three bytes of its own, every node and
region two. So all their loops together make no more rounds than there are bytes, no level below the last is entered,
and a count reserves no more room than there are bytes left. -/
theorem loops_progress :
    (∀ levels, (parseField (parseType levels)).Advances 3) ∧ parseNode.Advances 2 ∧ parseRegion.Advances 2 ∧
    varint.Advances 1 ∧ byte.Advances 1 ∧ (∀ count, (bytes count).Advances count) ∧ parsePrelude.Advances 3 ∧
    (∀ levels, Progress levels (fun t => DataType.nodeCounts t.children) fun _ => Grammar.type levels) ∧
    Progress maxLevels Schema.nodeCount (fun _ => Grammar.schema) ∧
    Progress 0 (fun h => h.nodes.length + h.regions.length) (fun _ => Grammar.batchHeader) ∧
    ∀ count input, capacity count input ≤ input.length := by
  refine ⟨advances_field, advances_pair Node.mk, advances_pair Region.mk,
    (@orderly_varint Error.Corrupt).advances varint_takes, (@orderly_byte Error.Corrupt).advances fun ran =>
      (byte_takes ran).le, fun count => (@orderly_bytes Error.Corrupt count).advances fun ran => ?_, advances_prelude,
    fun levels => ?_, ?_, ?_, fun count input => ?_⟩
  · obtain ⟨rfl, sizes⟩ := bytes_ok ran
    exact sizes.le
  · exact .of_meters (Metered.meters_type levels) (orderly_type levels) (takes_type levels) fun t => by omega
  · exact .of_meters Metered.meters_schema orderly_schema takes_schema fun s => by omega
  · exact .of_meters Metered.meters_batchHeader (@orderly_batchHeader Error.Corrupt) takes_batchHeader fun h => by omega
  · rw [capacity_eq]
    exact Nat.min_le_right ..

/-- Two fields, one in the other, and what follows them. -/
def nested : Bytes := [1, 0, 0, 0x21, 1, 0, 0, 2, 7]

/-- The largest count there is, twice, and bytes for one field in another. -/
def boasting : Bytes :=
  [255, 255, 255, 255, 255, 255, 255, 255, 255, 1, 0, 0, 0x21, 255, 255, 255, 255, 255, 255, 255, 255, 255, 1, 0, 0, 2]

/-- The head of a batch with two nodes, which ends in the second of as many regions as there can be. -/
def unfinished : Bytes := [3, 2, 3, 0, 3, 1, 255, 255, 255, 255, 255, 255, 255, 255, 255, 1, 0, 8, 8]

/-- The loops of the parser are begun twice for the first schema, and three times for the second, which ends in the
middle; those of the batch header four times, and no level is entered. -/
theorem loops_progress_nested :
    (∃ s, parseSchema nested = .ok (s, [7]) ∧ s.nodeCount = 2 ∧ [7] <:+ nested ∧ 2 * s.nodeCount + 1 ≤ nested.length) ∧
    ((Grammar.schema : Metered Schema) nested {}).2 = ⟨2, 0, 2⟩ ∧
    (∃ reason, parseSchema boasting = .error reason) ∧
    ((Grammar.schema : Metered Schema) boasting {}).2 = ⟨3, 0, 2⟩ ∧
    ((Grammar.schema : Metered Schema) boasting {}).2.rounds ≤ boasting.length ∧
    (∃ reason, parseBatchHeader unfinished = .error reason) ∧
    ((Grammar.batchHeader : Metered BatchHeader) unfinished {}).2 = ⟨4, 0, 0⟩ ∧
    ((Grammar.batchHeader : Metered BatchHeader) unfinished {}).2.rounds ≤ unfinished.length := by
  obtain ⟨-, -, -, -, -, -, -, -, schema, header, -⟩ := loops_progress
  have read : parseSchema nested =
      .ok (⟨[⟨"", .struct [⟨"", .fixed .int8, false⟩], false⟩]⟩, [7]) := by decide +kernel
  have stopped : parseSchema boasting = .error (.unreadable (.missing 1)) := by decide +kernel
  have stopped' : parseBatchHeader unfinished = .error (.unreadable (.missing 1)) := by decide +kernel
  exact ⟨⟨_, read, by decide, schema.found _ _ _ read⟩, by cbv, ⟨_, stopped⟩, by cbv, schema.rounds boasting,
    ⟨_, stopped'⟩, by cbv, header.rounds unfinished⟩

end Metadata

end ColumnStream
