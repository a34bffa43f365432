/-
One walk over a type. `DataType.walk` lists the places of a type, a column before its children; the encoder pushes its
nodes and buffers for these places in turn, and the decoder gives the entries of its tables to the columns at these
places in turn, so that either table entry is about the same column and role for both of them. A walk takes as many
entries as the counts of its type say, and ends for want of an entry only where there are fewer.
-/
import ColumnStream.Proofs.Batch.Tables

namespace ColumnStream

/-! ## Places -/

/-- The way from a column down to another: the number of a child, the number of one of its children, and so on. -/
abbrev Place := List Nat

/-- A place below child `i`. -/
def Place.under {α : Type} (i : Nat) (p : Place × α) : Place × α := (i :: p.1, p.2)

namespace DataType

mutual
/-- The places of a type, each with the type that lies there. -/
def walk : DataType → List (Place × DataType)
  | list ⟨name, t, nullable⟩ => ([], list ⟨name, t, nullable⟩) :: (walk t).map (Place.under 0)
  | struct members => ([], struct members) :: walkFrom 0 members
  | t => [([], t)]

/-- The places below some children, the first of which is child `i`. -/
def walkFrom (i : Nat) : List Field → List (Place × DataType)
  | [] => []
  | ⟨_, t, _⟩ :: rest => (walk t).map (Place.under i) ++ walkFrom (i + 1) rest
end

theorem walk_eq (t : DataType) : t.walk = ([], t) :: walkFrom 0 t.children := by
  cases t <;> simp [walk, walkFrom, children]

theorem walkFrom_cons (i : Nat) (f : Field) (rest : List Field) :
    walkFrom i (f :: rest) = f.type.walk.map (Place.under i) ++ walkFrom (i + 1) rest := rfl

end DataType

/-- The buffers at some places, in the order of the roles. -/
def slotsOf (places : List (Place × DataType)) : List (Place × Role) :=
  places.flatMap fun p => p.2.roles.map (p.1, ·)

theorem slotsOf_append (places places' : List (Place × DataType)) :
    slotsOf (places ++ places') = slotsOf places ++ slotsOf places' := List.flatMap_append

theorem slotsOf_under (i : Nat) (places : List (Place × DataType)) :
    slotsOf (places.map (Place.under i)) = (slotsOf places).map (Place.under i) := by
  simp [slotsOf, List.flatMap_map, List.map_flatMap, Place.under, Function.comp_def]

namespace DataType

def slots (t : DataType) : List (Place × Role) := slotsOf t.walk

theorem length_walkFrom {fields : List Field} (each : ∀ f ∈ fields, f.type.walk.length = f.type.nodeCount) (i : Nat) :
    (walkFrom i fields).length = nodeCounts fields := by
  induction fields generalizing i with
  | nil => rfl
  | cons f fields ih =>
    obtain ⟨own, others⟩ := List.forall_mem_cons.1 each
    rw [walkFrom_cons, List.length_append, List.length_map, own, ih others, nodeCounts_cons]

theorem length_walk (t : DataType) : t.walk.length = t.nodeCount := by
  induction t using inductChildren with
  | step t ih => rw [walk_eq, List.length_cons, length_walkFrom ih, nodeCount_eq, Nat.add_comm]

theorem length_slotsFrom {fields : List Field} (each : ∀ f ∈ fields, f.type.slots.length = f.type.bufferCount)
    (i : Nat) : (slotsOf (walkFrom i fields)).length = bufferCounts fields := by
  induction fields generalizing i with
  | nil => rfl
  | cons f fields ih =>
    obtain ⟨own, others⟩ := List.forall_mem_cons.1 each
    rw [walkFrom_cons, slotsOf_append, slotsOf_under, List.length_append, List.length_map, ← slots, own, ih others,
      bufferCounts_cons]

theorem length_slots (t : DataType) : t.slots.length = t.bufferCount := by
  induction t using inductChildren with
  | step t ih =>
    rw [slots, walk_eq, ← List.singleton_append, slotsOf_append, List.length_append, length_slotsFrom ih,
      bufferCount_eq]
    simp [slotsOf]

end DataType

/-! ## Tables in the order of the walk -/

/-- The nodes are those of the columns at these places, and each entry holds what the column at its place has for its
role. -/
structure Paired {β : Type} (lies : Place → Column → Prop) (holds : Column → Role → β → Prop)
    (places : List (Place × DataType)) (nodes : List Node) (entries : List β) : Prop where
  eachNode : List.Forall₂ (fun p n => ∃ c, lies p.1 c ∧ c.type = p.2 ∧ c.node = n) places nodes
  eachEntry : List.Forall₂ (fun s b => ∃ c, lies s.1 c ∧ holds c s.2 b) (slotsOf places) entries

namespace Paired

variable {β : Type} {lies lies' : Place → Column → Prop} {holds : Column → Role → β → Prop}
  {places places' : List (Place × DataType)} {nodes nodes' : List Node} {entries entries' : List β}

theorem nil : Paired lies holds [] [] [] := ⟨.nil, .nil⟩

theorem append (h : Paired lies holds places nodes entries) (h' : Paired lies holds places' nodes' entries') :
    Paired lies holds (places ++ places') (nodes ++ nodes') (entries ++ entries') :=
  ⟨List.rel_append h.eachNode h'.eachNode, slotsOf_append places places' ▸ List.rel_append h.eachEntry h'.eachEntry⟩

/-- The tables of a child, seen from above. -/
theorem under {i : Nat} (h : Paired lies' holds places nodes entries)
    (up : ∀ place c, lies' place c → lies (i :: place) c) :
    Paired lies holds (places.map (Place.under i)) nodes entries := by
  refine ⟨List.forall₂_map_left_iff.2 (h.eachNode.imp ?_), ?_⟩
  · rintro ⟨place, t⟩ n ⟨c, lies, rest⟩
    exact ⟨c, up place c lies, rest⟩
  · rw [slotsOf_under]
    refine List.forall₂_map_left_iff.2 (h.eachEntry.imp ?_)
    rintro ⟨place, role⟩ b ⟨c, lies, rest⟩
    exact ⟨c, up place c lies, rest⟩

/-- A column's own entries come before those of its children. -/
theorem column {c : Column} {t : DataType} {own : List β} (lies_here : lies [] c) (type : c.type = t)
    (here : List.Forall₂ (holds c) t.roles own)
    (below : Paired lies holds (DataType.walkFrom 0 t.children) nodes entries) :
    Paired lies holds t.walk (c.node :: nodes) (own ++ entries) := by
  have first : Paired lies holds [([], t)] [c.node] own := by
    refine ⟨.cons ⟨c, lies_here, type, rfl⟩ .nil, ?_⟩
    rw [slotsOf, List.flatMap_singleton]
    exact List.forall₂_map_left_iff.2 (here.imp fun role b h => ⟨c, lies_here, h⟩)
  rw [DataType.walk_eq]
  exact first.append below

theorem mono {γ : Type} {holds' : Column → Role → γ → Prop} {others : List γ} {related : β → γ → Prop}
    (h : Paired lies holds places nodes entries) (same : List.Forall₂ related entries others)
    (le : ∀ c role b b', related b b' → holds c role b → holds' c role b') :
    Paired lies holds' places nodes others := by
  refine ⟨h.eachNode, ?_⟩
  refine List.forall₂_iff_get.2 ⟨h.eachEntry.length_eq.trans same.length_eq, fun i hi hi' => ?_⟩
  have mid : i < entries.length := h.eachEntry.length_eq ▸ hi
  obtain ⟨c, lies, held⟩ := h.eachEntry.get hi mid
  exact ⟨c, lies, le _ _ _ _ (same.get mid hi') held⟩

end Paired

/-- A column's share of the tables: as many entries as its type takes, in the order of the walk. -/
structure Share {β : Type} (lies : Place → Column → Prop) (holds : Column → Role → β → Prop) (t : DataType)
    (nodes : List Node) (entries : List β) : Prop extends Paired lies holds t.walk nodes entries where
  nodeCount : nodes.length = t.nodeCount
  bufferCount : entries.length = t.bufferCount

theorem Paired.share {β : Type} {lies : Place → Column → Prop} {holds : Column → Role → β → Prop} {t : DataType}
    {nodes : List Node} {entries : List β} (h : Paired lies holds t.walk nodes entries) :
    Share lies holds t nodes entries :=
  ⟨h, h.eachNode.length_eq.symm.trans (DataType.length_walk t),
    h.eachEntry.length_eq.symm.trans (DataType.length_slots t)⟩

/-! ## The encoder -/

namespace Column

/-- The elements of its children that a column covers, as start and count. -/
def window (c : Column) : Result (Nat × Nat) :=
  match c.type with
  | .list _ => do
    let (_, start, count) ← c.rebasedOffsets
    return (start, count)
  | _ => .ok (c.offset, c.length)

/-- What the encoder pushes for a place: the part of the column there that the columns above it cover. -/
def pushedAt (c : Column) : Place → Result Column
  | [] => .ok c
  | i :: place =>
    match c.children[i]? with
    | none => fail .outOfBounds
    | some child => do
      let (start, count) ← c.window
      pushedAt (← child.slice start count) place

/-- The bytes that are pushed for a role of the column. -/
def stored (c : Column) : Role → Result Buffer
  | .validity => c.storedValidity
  | .offsets => do
    let (offsets, _, _) ← c.rebasedOffsets
    return offsets
  | .values =>
    match c.type with
    | .boolean => Bitmap.packed (c.bytesOf .values) c.offset c.length
    | .fixed p => do
      let start ← Word.mul c.offset p.width
      let stop ← Word.mul (← Word.add c.offset c.length) p.width
      (c.bytesOf .values).range start stop
    | _ => do
      let (_, start, count) ← c.rebasedOffsets
      (c.bytesOf .values).slice start count

def PushedAt (c : Column) (place : Place) (a : Column) : Prop := c.pushedAt place = .ok a

def Stored (a : Column) (role : Role) (b : Buffer) : Prop := a.stored role = .ok b

theorem PushedAt.child {c child part a : Column} {i start count : Nat} {place : Place}
    (found : c.children[i]? = some child) (window : c.window = .ok (start, count))
    (sliced : child.slice start count = .ok part)
    (h : part.PushedAt place a) : c.PushedAt (i :: place) a := by
  rw [PushedAt, pushedAt, found]
  simp only
  rw [window, ok_bind]
  simp only
  rw [sliced, ok_bind]
  exact h

/-- A column's own buffers are what is stored of it, role by role; behind them come those of the children, each of them
cut to what the column covers. -/
theorem flattenAs_cases {t : DataType} {c : Column} {flat : Flattened} (type : c.type = t)
    (children : c.children.map (·.type) = t.children.map (·.type)) (ran : flattenAs t c = .ok flat) :
    ∃ own below start count, flat = ⟨[c.node], own⟩ ++ below ∧ List.Forall₂ c.Stored t.roles own ∧
      c.window = .ok (start, count) ∧ flattenMembers t.children c.children start count = .ok below := by
  cases t with
  | boolean =>
    obtain ⟨values, bits, ran⟩ := bind_eq_ok.1 ran
    obtain ⟨validity, marks, last⟩ := bind_eq_ok.1 ran
    cases last
    have values_eq : c.Stored .values values := by rwa [Stored, stored, type]
    exact ⟨_, .empty, _, _, rfl, .cons marks (.cons values_eq .nil), by rw [window, type], rfl⟩
  | fixed p =>
    obtain ⟨start, hstart, ran⟩ := bind_eq_ok.1 ran
    obtain ⟨stop, hstop, ran⟩ := bind_eq_ok.1 ran
    obtain ⟨bytes, hbytes, ran⟩ := bind_eq_ok.1 ran
    obtain ⟨validity, marks, ran⟩ := bind_eq_ok.1 ran
    obtain ⟨values, cut, last⟩ := bind_eq_ok.1 ran
    cases last
    have values_eq : c.Stored .values values := by
      rw [Stored, stored, type]
      exact bind_eq_ok.2 ⟨_, hstart, bind_eq_ok.2 ⟨_, hstop, bind_eq_ok.2 ⟨_, hbytes, cut⟩⟩⟩
    exact ⟨_, .empty, _, _, rfl, .cons marks (.cons values_eq .nil), by rw [window, type], rfl⟩
  | binary | utf8 =>
    obtain ⟨⟨offsets, start, count⟩, rebased, ran⟩ := bind_eq_ok.1 ran
    obtain ⟨validity, marks, ran⟩ := bind_eq_ok.1 ran
    obtain ⟨values, cut, last⟩ := bind_eq_ok.1 ran
    cases last
    have offsets_eq : c.Stored .offsets offsets := bind_eq_ok.2 ⟨_, rebased, rfl⟩
    have values_eq : c.Stored .values values := by
      rw [Stored, stored, type]
      exact bind_eq_ok.2 ⟨_, rebased, cut⟩
    exact ⟨_, .empty, _, _, rfl, .cons marks (.cons offsets_eq (.cons values_eq .nil)), by rw [window, type], rfl⟩
  | list item =>
    obtain ⟨child, rest, found, childType, none⟩ := List.map_eq_cons_iff.1 children
    obtain rfl := List.map_eq_nil_iff.1 none
    obtain ⟨name, t, nullable⟩ := item
    obtain ⟨⟨offsets, start, count⟩, rebased, ran⟩ := bind_eq_ok.1 ran
    obtain ⟨validity, marks, ran⟩ := bind_eq_ok.1 ran
    rw [found] at ran
    obtain ⟨part, sliced, ran⟩ := bind_eq_ok.1 ran
    obtain ⟨below, flat', last⟩ := bind_eq_ok.1 ran
    cases last
    have offsets_eq : c.Stored .offsets offsets := bind_eq_ok.2 ⟨_, rebased, rfl⟩
    refine ⟨_, below, start, count, rfl, .cons marks (.cons offsets_eq .nil), ?_, ?_⟩
    · rw [window, type]
      exact bind_eq_ok.2 ⟨_, rebased, rfl⟩
    · rw [found, DataType.children, flattenMembers, sliced, ok_bind, flat', ok_bind]
      show Except.ok (below ++ Flattened.empty) = _
      rw [Flattened.append_empty]
  | struct members =>
    obtain ⟨validity, marks, ran⟩ := bind_eq_ok.1 ran
    obtain ⟨below, flat', last⟩ := bind_eq_ok.1 ran
    cases last
    exact ⟨_, below, _, _, rfl, .cons marks .nil, by rw [window, type], flat'⟩

theorem flattenMembers_paired {fields : List Field} {children : List Column} {start count i : Nat} {flat : Flattened}
    {lies : Place → Column → Prop} (types : children.map (·.type) = fields.map (·.type))
    (sound : ∀ child ∈ children, child.Sound)
    (each : ∀ f ∈ fields, ∀ part flat, part.Sound → part.type = f.type → flattenAs f.type part = .ok flat →
      Paired part.PushedAt Stored f.type.walk flat.nodes flat.buffers)
    (up : ∀ j child part, children[j]? = some child → child.slice start count = .ok part →
      ∀ place a, part.PushedAt place a → lies ((i + j) :: place) a)
    (ran : flattenMembers fields children start count = .ok flat) :
    Paired lies Stored (DataType.walkFrom i fields) flat.nodes flat.buffers := by
  induction fields generalizing children i flat with
  | nil =>
    cases ran
    exact .nil
  | cons f fields ih =>
    obtain ⟨child, children, rfl, type, tail⟩ := List.map_eq_cons_iff.1 types
    obtain ⟨own, others⟩ := List.forall_mem_cons.1 sound
    obtain ⟨part, sliced, ran⟩ := bind_eq_ok.1 ran
    obtain ⟨first, flat', ran⟩ := bind_eq_ok.1 ran
    obtain ⟨rest, below, last⟩ := bind_eq_ok.1 ran
    cases last
    have partType : part.type = f.type := by rw [(slice_ok sliced).1]; exact type
    have here := each f (List.mem_cons_self ..) part first (own.slice sliced) partType flat'
    refine (here.under (up 0 child part rfl sliced)).append (ih tail others
      (fun g hg => each g (List.mem_cons_of_mem _ hg)) (fun j sibling part' found cut place a pushed => ?_) below)
    -- Child `j` of those still to come is child `j + 1` here.
    rw [Nat.add_right_comm]
    exact up (j + 1) sibling part' found cut place a pushed

/-- The encoder lists nodes and buffers in the order of the walk. -/
theorem flattenAs_paired (t : DataType) : ∀ (c : Column) (flat : Flattened), c.Sound → c.type = t →
    flattenAs t c = .ok flat → Paired c.PushedAt Stored t.walk flat.nodes flat.buffers := by
  -- On the type, for any column of it: what is pushed below is not a child of the column but a part of one.
  induction t using DataType.inductChildren with
  | step t ih =>
    intro c flat sound type ran
    have children := sound.here.children
    rw [type] at children
    obtain ⟨own, below, start, count, rfl, stored, window, flat'⟩ := flattenAs_cases type children ran
    refine .column rfl type stored (flattenMembers_paired children (fun child hc => sound.child hc) ih ?_ flat')
    intro j child part found sliced place a pushed
    rw [Nat.zero_add]
    exact PushedAt.child found window sliced pushed

end Column

/-! ### The table of regions -/

namespace Batch

theorem regionsFrom_append (start : Nat) (before after : List Buffer) :
    regionsFrom start (before ++ after) = regionsFrom start before ++
      regionsFrom (start + (bodyOf before).size) after := by
  induction before generalizing start with
  | nil => rfl
  | cons b before ih =>
    rw [List.cons_append, regionsFrom, regionsFrom, ih, bodyOf_cons, Array.size_append, Buffer.size_pad,
      List.cons_append, Nat.add_assoc]

/-- Each region holds its buffer, behind whatever was there before. -/
theorem bytesIn_regionsFrom (before : Buffer) (buffers : List Buffer) :
    List.Forall₂ (fun b r => Region.bytesIn (before ++ bodyOf buffers) r = b) buffers
      (regionsFrom before.size buffers) := by
  induction buffers generalizing before with
  | nil => exact .nil
  | cons b buffers ih =>
    have step : before ++ bodyOf (b :: buffers) = before ++ b.pad ++ bodyOf buffers := by
      rw [bodyOf_cons, Array.append_assoc]
    have size : (before ++ b.pad).size = before.size + padded b.size := by rw [Array.size_append, Buffer.size_pad]
    rw [step]
    refine .cons ?_ ?_
    · simp only [Region.bytesIn, Buffer.pad, Array.append_assoc]
      apply Array.toList_inj.1
      simp
    · rw [← size]
      exact ih _

end Batch

/-! ## The decoder -/

namespace Column

/-- The column at a place. -/
def at? (c : Column) : Place → Option Column
  | [] => some c
  | i :: place =>
    match c.children[i]? with
    | none => none
    | some child => child.at? place

def At (c : Column) (place : Place) (a : Column) : Prop := c.at? place = some a

/-- The column has the bytes of the region for that role. -/
def Holds (body : Buffer) (a : Column) (role : Role) (r : Region) : Prop :=
  r.Inside body ∧ a.bytesOf role = r.bytesIn body

theorem At.child {c child a : Column} {i : Nat} {place : Place} (found : c.children[i]? = some child)
    (h : child.At place a) : c.At (i :: place) a := by
  rw [At, at?, found]
  exact h

end Column

namespace Walk

variable {α β : Type}

/-- A walk that finds something has taken so many entries off either table, from the front. It ends for want of a node
or of a region only where there are fewer. -/
structure Exact (m k : Nat) (post : α → List Node → List Region → Prop) (w : Walk α) : Prop where
  found : ∀ {tables left : Tables} {a : α}, w tables = .ok (a, left) → ∃ nodes regions,
    tables = ⟨nodes ++ left.nodes, regions ++ left.regions, tables.taken⟩ ∧ left.taken = tables.taken + k ∧
      nodes.length = m ∧ regions.length = k ∧ post a nodes regions
  nodesEnded : ∀ {tables : Tables}, w tables = fail (.corruptStream .nodesEnded) → tables.nodes.length < m
  buffersEnded : ∀ {tables : Tables}, w tables = fail (.corruptStream .buffersEnded) → tables.regions.length < k

section

variable {m m' k k' : Nat} {post : α → List Node → List Region → Prop} {w : Walk α}

theorem Exact.bind {f : α → Walk β} {post' : α → β → List Node → List Region → Prop}
    (first : Exact m k post w) (next : ∀ a, Exact m' k' (post' a) (f a)) :
    Exact (m + m') (k + k') (fun b nodes regions => ∃ a n n' r r', nodes = n ++ n' ∧ regions = r ++ r' ∧
      post a n r ∧ post' a b n' r') (w >>= f) := by
  have cases (tables : Tables) : (∃ e, w tables = .error e ∧ (w >>= f) tables = .error e) ∨
      ∃ a left, w tables = .ok (a, left) ∧ (w >>= f) tables = f a left := by
    cases ran : w tables with
    | error e => exact .inl ⟨e, rfl, by show (w tables >>= _) = _; rw [ran]; rfl⟩
    | ok found => exact .inr ⟨found.1, found.2, rfl, bind_apply ran⟩
  refine ⟨fun {tables left b} ran => ?_, fun {tables} ended => ?_, fun {tables} ended => ?_⟩
  · obtain ⟨a, between, start, rest⟩ := bind_ok ran
    obtain ⟨n, r, here, count, ln, lr, held⟩ := first.found start
    obtain ⟨n', r', there, count', ln', lr', held'⟩ := (next a).found rest
    refine ⟨n ++ n', r ++ r', ?_, by omega, by rw [List.length_append]; omega, by rw [List.length_append]; omega,
      a, n, n', r, r', rfl, rfl, held, held'⟩
    rw [here, there]
    simp only [List.append_assoc]
  · rcases cases tables with ⟨e, start, stopped⟩ | ⟨a, left, start, applied⟩
    · obtain rfl := Except.error.inj (stopped.symm.trans ended)
      have := first.nodesEnded start
      omega
    · obtain ⟨n, r, here, -, ln, -, -⟩ := first.found start
      -- What the first walk took is gone from the table, so that the whole is short by as much.
      have short := (next a).nodesEnded (applied.symm.trans ended)
      rw [here, List.length_append]
      omega
  · rcases cases tables with ⟨e, start, stopped⟩ | ⟨a, left, start, applied⟩
    · obtain rfl := Except.error.inj (stopped.symm.trans ended)
      have := first.buffersEnded start
      omega
    · obtain ⟨n, r, here, -, -, lr, -⟩ := first.found start
      have short := (next a).buffersEnded (applied.symm.trans ended)
      rw [here, List.length_append]
      omega

theorem Exact.mono {post' : α → List Node → List Region → Prop} (h : Exact m k post w)
    (le : ∀ a n r, post a n r → post' a n r) : Exact m k post' w where
  found ran := by
    obtain ⟨n, r, here, count, ln, lr, held⟩ := h.found ran
    exact ⟨n, r, here, count, ln, lr, le _ n r held⟩
  nodesEnded := h.nodesEnded
  buffersEnded := h.buffersEnded

/-- What takes no entries takes just none, unless it fails as a table that ended does. -/
theorem exact_lift {x : Result α} (other : ∀ problem, x ≠ fail (.corruptStream problem)) :
    Exact 0 0 (fun a n r => x = .ok a ∧ n = [] ∧ r = []) (fun tables => x >>= fun a => pure (a, tables)) := by
  cases x with
  | error e =>
    refine ⟨fun ran => (nomatch ran), fun ended => ?_, fun ended => ?_⟩ <;>
      exact absurd (congrArg Except.error (Except.error.inj ended)) (other _)
  | ok a =>
    refine ⟨fun ran => ?_, fun ended => (nomatch ended), fun ended => (nomatch ended)⟩
    cases ran
    exact ⟨[], [], rfl, rfl, rfl, rfl, rfl, rfl, rfl⟩

theorem exact_pure (a : α) : Exact 0 0 (fun b n r => b = a ∧ n = [] ∧ r = []) (pure a : Walk α) := by
  have lifted : Exact 0 0 _ (fun tables => (Except.ok a : Result α) >>= fun a => pure (a, tables)) :=
    exact_lift fun _ h => (nomatch h)
  exact lifted.mono fun _ _ _ same => ⟨(Except.ok.inj same.1).symm, same.2⟩

end

theorem exact_node : Exact 1 0 (fun n nodes regions => nodes = [n] ∧ regions = []) node where
  found {tables left n} ran := by
    obtain ⟨nodes, regions, count⟩ := tables
    cases nodes <;> cases ran
    exact ⟨[_], [], rfl, rfl, rfl, rfl, rfl, rfl⟩
  nodesEnded {tables} ended := by
    obtain ⟨nodes, regions, count⟩ := tables
    cases nodes <;> cases ended
    exact Nat.one_pos
  buffersEnded {tables} ended := by
    obtain ⟨nodes, regions, count⟩ := tables
    cases nodes <;> cases ended

theorem exact_region : Exact 0 1 (fun found nodes regions => nodes = [] ∧ regions = [found.2]) region where
  found {tables left found} ran := by
    obtain ⟨nodes, regions, count⟩ := tables
    cases regions <;> cases ran
    exact ⟨[], [_], rfl, rfl, rfl, rfl, rfl, rfl⟩
  nodesEnded {tables} ended := by
    obtain ⟨nodes, regions, count⟩ := tables
    cases regions <;> cases ended
  buffersEnded {tables} ended := by
    obtain ⟨nodes, regions, count⟩ := tables
    cases regions <;> cases ended
    exact Nat.one_pos

theorem cut_ne (body : Buffer) (t : DataType) (n : Node) (role : Role) (index : Nat) (r : Region)
    (problem : StreamProblem) : cut body t n role index r ≠ fail (.corruptStream problem) := by
  have bytes : body.slice r.offset r.length ≠ fail (.corruptStream problem) := by
    unfold Buffer.slice
    split <;> exact fun h => (nomatch h)
  unfold cut
  split
  · exact fun h => (nomatch h)
  · split
    · exact bytes
    · simp only
      split
      · exact fun h => (nomatch h)
      · exact bytes

/-- The buffers are those of just these regions. -/
def Buffers (body : Buffer) (own : List Buffer) (nodes : List Node) (regions : List Region) : Prop :=
  nodes = [] ∧ List.Forall₂ (fun b r => r.Inside body ∧ b = r.bytesIn body) own regions

theorem exact_buffer (body : Buffer) (t : DataType) (n : Node) (role : Role) :
    Exact 0 1 (fun b => Buffers body [b]) (buffer body t n role) := by
  refine (exact_region.bind fun found => exact_lift (cut_ne body t n role found.1 found.2)).mono ?_
  rintro b _ _ ⟨⟨index, r⟩, _, _, _, _, rfl, rfl, ⟨rfl, rfl⟩, bytes, rfl, rfl⟩
  exact ⟨rfl, .cons (cut_ok bytes) .nil⟩

theorem exact_buffers (body : Buffer) (t : DataType) (n : Node) (roles : List Role) :
    Exact 0 roles.length (Buffers body) (buffers body t n roles) := by
  induction roles with
  | nil =>
    refine (exact_pure []).mono ?_
    rintro own _ _ ⟨rfl, rfl, rfl⟩
    exact ⟨rfl, .nil⟩
  | cons role roles ih =>
    rw [List.length_cons, Nat.add_comm]
    refine ((exact_buffer body t n role).bind fun first => ih.bind fun others => exact_pure _).mono ?_
    rintro own _ _ ⟨first, _, _, _, _, rfl, rfl, ⟨rfl, one⟩, others, _, _, _, _, rfl, rfl, ⟨rfl, rest⟩, rfl, rfl, rfl⟩
    exact ⟨rfl, List.rel_append one ((List.append_nil _).symm ▸ rest)⟩

/-- The column has its share of the tables, in the order of the walk. -/
def Holds (body : Buffer) (t : DataType) (c : Column) (nodes : List Node) (regions : List Region) : Prop :=
  c.type = t ∧ Paired c.At (Column.Holds body) t.walk nodes regions

/-- So have all columns of some fields, wherever they are children. -/
def HoldAll (body : Buffer) (fields : List Field) (columns : List Column) (nodes : List Node)
    (regions : List Region) : Prop :=
  ∀ (i : Nat) (lies : Place → Column → Prop),
    (∀ j child, columns[j]? = some child → ∀ place a, child.At place a → lies ((i + j) :: place) a) →
    Paired lies (Column.Holds body) (DataType.walkFrom i fields) nodes regions

theorem exact_columns (body : Buffer) {fields : List Field}
    (each : ∀ f ∈ fields, Exact f.type.nodeCount f.type.bufferCount (Holds body f.type) (column body f.type)) :
    Exact (DataType.nodeCounts fields) (DataType.bufferCounts fields) (HoldAll body fields) (columns body fields) := by
  induction fields with
  | nil =>
    refine (exact_pure []).mono ?_
    rintro own _ _ ⟨rfl, rfl, rfl⟩ i lies up
    exact .nil
  | cons f fields ih =>
    obtain ⟨own, others⟩ := List.forall_mem_cons.1 each
    refine (own.bind fun first => (ih others).bind fun rest => exact_pure _).mono ?_
    rintro columns _ _ ⟨first, n, _, r, _, rfl, rfl, ⟨-, here⟩, rest, n', _, r', _, rfl, rfl, below, rfl, rfl, rfl⟩
    intro i lies up
    rw [List.append_nil, List.append_nil]
    refine (here.under (up 0 first rfl)).append (below (i + 1) lies fun j child found place a lies_below => ?_)
    rw [Nat.add_right_comm]
    exact up (j + 1) child found place a lies_below

theorem assemble_ne (t : DataType) (n : Node) (own : List Buffer) (below : List Column) (problem : StreamProblem) :
    Column.assemble t n.length n.nullCount 0 own below ≠ fail (.corruptStream problem) := by
  intro failed
  have small : 0 + 8 < wordSize := by decide
  have cause : Answers Error.OfColumn _ (Column.assemble t n.length n.nullCount 0 own below) :=
    Column.answers_assemble fun _ _ _ => small
  rw [failed] at cause
  exact cause

/-- The decoder takes a node for a column and a region for each of its buffers, and then what its children take. -/
theorem exact_column (body : Buffer) (t : DataType) :
    Exact t.nodeCount t.bufferCount (Holds body t) (column body t) := by
  induction t using DataType.inductChildren with
  | step t ih =>
    have walk := exact_node.bind fun n => (exact_buffers body t n t.roles).bind fun own =>
      (exact_columns body ih).bind fun below => exact_lift (assemble_ne t n own below)
    simp only [Nat.zero_add, Nat.add_zero] at walk
    rw [column_eq, DataType.nodeCount_eq, DataType.bufferCount_eq]
    refine Exact.mono walk ?_
    rintro c _ _ ⟨n, _, _, _, _, rfl, rfl, ⟨rfl, rfl⟩, own, _, _, r, _, rfl, rfl, ⟨rfl, bytes⟩, below, n', _, r', _,
      rfl, rfl, children, made, rfl, rfl⟩
    obtain ⟨whole, wf⟩ := Column.assemble_eq_ok.1 made
    -- What was assembled has the node and the buffers that were just taken, and checks them in the order of the roles.
    have type : c.type = t := by rw [whole]
    have node : c.node = n := by rw [whole]; rfl
    have same : own = t.roles.map c.bytesOf := by rw [← type, ← Column.buffers_eq wf.buffers, whole]
    rw [same] at bytes
    have here := List.forall₂_map_left_iff.1 bytes
    refine ⟨type, ?_⟩
    simp only [List.append_nil, List.nil_append]
    rw [← node]
    refine .column rfl type here (children 0 _ fun j child found place a lies => ?_)
    rw [Nat.zero_add]
    exact Column.At.child (by rw [whole]; exact found) lies

end Walk

/-! ## Both of them -/

namespace Batch

variable {schema : Schema} {header : BatchHeader} {body : Buffer}

theorem assembleWith_ne (schema : Schema) (columns : List Column) (rows : Nat) (problem : StreamProblem) :
    assembleWith schema columns rows ≠ fail (.corruptStream problem) := by
  intro failed
  have cause := answers_assembleWith schema columns rows
  rw [failed] at cause
  exact cause

/-- An error of the stream comes from the walk, and only where both counts are right. -/
theorem ofHeader_fail {problem : StreamProblem} (h : ofHeader schema header body = fail (.corruptStream problem)) :
    header.nodes.length = schema.nodeCount ∧ header.regions.length = schema.bufferCount ∧
      Walk.columns body schema.fields ⟨header.nodes, header.regions, 0⟩ = fail (.corruptStream problem) := by
  unfold ofHeader at h
  split at h
  · cases h
  split at h
  · cases h
  rename_i nodes regions
  refine ⟨not_not.1 nodes, not_not.1 regions, ?_⟩
  cases walked : Walk.columns body schema.fields ⟨header.nodes, header.regions, 0⟩ with
  | error e =>
    rw [walked] at h
    exact congrArg Except.error (Except.error.inj h)
  | ok found =>
    rw [walked, ok_bind] at h
    exact absurd h (assembleWith_ne _ _ _ _)

/-- Tables of the right lengths have no entry left over. -/
theorem columns_spend (nodes : header.nodes.length = schema.nodeCount)
    (regions : header.regions.length = schema.bufferCount) {columns : List Column} {left : Tables}
    (ran : Walk.columns body schema.fields ⟨header.nodes, header.regions, 0⟩ = .ok (columns, left)) :
    left = ⟨[], [], schema.bufferCount⟩ := by
  obtain ⟨n, r, taken, count, ln, lr, -⟩ := (Walk.exact_columns body fun f _ => Walk.exact_column body f.type).found ran
  obtain ⟨nodes_eq, regions_eq, -⟩ := Tables.mk.inj taken
  rw [nodes_eq, List.length_append, Schema.nodeCount] at nodes
  rw [regions_eq, List.length_append, Schema.bufferCount] at regions
  have no_nodes : left.nodes = [] := List.eq_nil_of_length_eq_zero (by omega)
  have no_regions : left.regions = [] := List.eq_nil_of_length_eq_zero (by omega)
  rw [Nat.zero_add] at count
  rcases left with ⟨_, _, _⟩
  exact Tables.mk.injEq .. ▸ ⟨no_nodes, no_regions, count⟩

end Batch

/-- For any type, the encoder adds just its share to the tables, whatever they hold, in the order of the walk, and the
decoder takes just its share off them, in the order of the walk: so they agree about which column and which role each
entry is for. Once the counts of a header are right, no table ends early, and none has an entry left over. -/
theorem tables_in_step (t : DataType) :
    (∀ c : Column, c.Obtained → c.type = t → (c.Addressable → ∃ flat, c.flatten = .ok flat) ∧
      ∀ before flat : Flattened, c.flatten = .ok flat → ∃ regions,
        (before ++ flat).nodes = before.nodes ++ flat.nodes ∧
        Batch.regionsFrom 0 (before ++ flat).buffers = Batch.regionsFrom 0 before.buffers ++ regions ∧
        Share c.PushedAt (fun a role r => a.Stored role (Region.bytesIn (Batch.bodyOf (before ++ flat).buffers) r)) t
          flat.nodes regions) ∧
    (∀ body tables c left, Walk.column body t tables = .ok (c, left) → ∃ nodes regions,
      tables = ⟨nodes ++ left.nodes, regions ++ left.regions, tables.taken⟩ ∧
        left.taken = tables.taken + t.bufferCount ∧ Share c.At (Column.Holds body) t nodes regions) ∧
    ∀ schema header body,
      Batch.ofHeader schema header body ≠ fail (.corruptStream .nodesEnded) ∧
      Batch.ofHeader schema header body ≠ fail (.corruptStream .buffersEnded) ∧
      (header.nodes.length = schema.nodeCount → header.regions.length = schema.bufferCount →
        ∀ columns left, Walk.columns body schema.fields ⟨header.nodes, header.regions, 0⟩ = .ok (columns, left) →
          left = ⟨[], [], schema.bufferCount⟩) ∧
      ∀ b, Batch.ofHeader schema header body = .ok b →
        Walk.columns body schema.fields ⟨header.nodes, header.regions, 0⟩ =
          .ok (b.columns, ⟨[], [], schema.bufferCount⟩) := by
  refine ⟨fun c obtained type => ⟨fun small => ?_, fun before flat ran => ?_⟩, fun body tables c left ran => ?_,
    fun schema header body => ?_⟩
  · obtain ⟨d, ran, -⟩ := Column.flattenAs_eq c.type c obtained.reachable.sound small rfl
    exact ⟨_, ran⟩
  · refine ⟨_, rfl, Batch.regionsFrom_append 0 before.buffers flat.buffers, Paired.share ?_⟩
    rw [Column.flatten, type] at ran
    have pushed := Column.flattenAs_paired t c flat obtained.reachable.sound type ran
    have regions := Batch.bytesIn_regionsFrom (Batch.bodyOf before.buffers) flat.buffers
    rw [← Batch.bodyOf_append] at regions
    rw [Nat.zero_add]
    exact pushed.mono regions fun a role b r same stored => same ▸ stored
  · obtain ⟨nodes, regions, taken, count, -, -, -, paired⟩ := (Walk.exact_column body t).found ran
    exact ⟨nodes, regions, taken, count, paired.share⟩
  · have exact := Walk.exact_columns body fun f (_ : f ∈ schema.fields) => Walk.exact_column body f.type
    refine ⟨fun ended => ?_, fun ended => ?_, fun nodes regions columns left => Batch.columns_spend nodes regions,
      fun b made => ?_⟩
    · obtain ⟨nodes, -, walked⟩ := Batch.ofHeader_fail ended
      exact absurd (exact.nodesEnded walked) (Nat.not_lt.2 nodes.ge)
    · obtain ⟨-, regions, walked⟩ := Batch.ofHeader_fail ended
      exact absurd (exact.buffersEnded walked) (Nat.not_lt.2 regions.ge)
    · obtain ⟨nodes, regions, columns, left, walked, rfl, -⟩ := Batch.ofHeader_found made
      rw [← Batch.columns_spend nodes regions walked]
      exact walked

/-- The second of two lists is pushed behind the entries of another column, and both lists are read from a body. -/
theorem tables_in_step_lists :
    Batch.lists.type.slots = [([], .validity), ([], .offsets), ([0], .validity), ([0], .values)] ∧
    (∃ flat regions, (Batch.lists.part 1 1).flatten = .ok flat ∧
      Share (Batch.lists.part 1 1).PushedAt
        (fun a role r => a.Stored role
          (Region.bytesIn (Batch.bodyOf (⟨[⟨3, 0⟩], [#[], #[1, 2, 3]]⟩ ++ flat : Flattened).buffers) r))
        Batch.lists.type flat.nodes regions) ∧
    Share Batch.lists.At (Column.Holds Batch.listsBody) Batch.lists.type [⟨2, 0⟩, ⟨3, 0⟩]
      [⟨0, 0⟩, ⟨0, 12⟩, ⟨16, 0⟩, ⟨16, 3⟩] ∧
    Walk.columns Batch.listsBody Batch.secondList.schema.fields
      ⟨(Batch.listsHeader 0).nodes, (Batch.listsHeader 0).regions, 0⟩ = .ok ([Batch.lists], ⟨[], [], 4⟩) := by
  have made : Batch.ofHeader Batch.secondList.schema (Batch.listsHeader 0) Batch.listsBody =
      .ok ⟨Batch.secondList.schema, 2, [Batch.lists]⟩ := by rfl
  have read : Walk.column Batch.listsBody Batch.lists.type
      ⟨[⟨2, 0⟩, ⟨3, 0⟩], [⟨0, 0⟩, ⟨0, 12⟩, ⟨16, 0⟩, ⟨16, 3⟩], 0⟩ = .ok (Batch.lists, ⟨[], [], 4⟩) := by rfl
  have obtained : (Batch.lists.part 1 1).Obtained := .column Batch.obtained_secondList (List.mem_singleton.2 rfl)
  obtain ⟨encoder, decoder, tables⟩ := tables_in_step Batch.lists.type
  obtain ⟨listed, shares⟩ := encoder _ obtained rfl
  obtain ⟨flat, ran⟩ := listed (Batch.inMemory_secondList.bitmaps _ (List.mem_singleton.2 rfl))
  obtain ⟨regions, -, -, share⟩ := shares ⟨[⟨3, 0⟩], [#[], #[1, 2, 3]]⟩ flat ran
  obtain ⟨nodes, regions', taken, -, share'⟩ := decoder _ _ _ _ read
  obtain ⟨same, same', -⟩ := Tables.mk.inj taken
  simp only [List.append_nil] at same same'
  subst same same'
  obtain ⟨-, -, -, used⟩ := tables Batch.secondList.schema (Batch.listsHeader 0) Batch.listsBody
  exact ⟨by rfl, ⟨flat, regions, ran, share⟩, share', used _ made⟩

end ColumnStream
