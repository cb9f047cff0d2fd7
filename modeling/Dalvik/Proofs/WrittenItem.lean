import Mathlib
import Dalvik.Proofs.Leb128

/-!
# Written code items

How a method body is laid out in bytes, said without any reference to reading. `Body` is what is to
be written and `Body.Written` relates it to its layouts: the LEB128 numbers can have any form of up
to five bytes and the padding any value, and a try item names its handler list by the offset at
which the list comes to stand. `Body.encode` is the layout with the shortest forms and no bits in
the padding.

Parsing undoes every layout (`parse_of_written`): it gives the body back, with the size of the
layout, and does not look at the bytes behind it.
-/

namespace Dalvik

open Bytes

namespace TryBlock

/-- The blocks are in order if and only if each of them ends before the next one starts. -/
theorem sorted_iff_isChain (tries : List TryBlock) :
    sorted tries = true ↔ tries.IsChain fun s t => s.stop ≤ t.start.toNat := by
  induction tries with
  | nil => simp [sorted, startsAscend, overlap]
  | cons s rest ih =>
    cases rest with
    | nil => simp [sorted, startsAscend, overlap]
    | cons t rest =>
      have hle : s.start ≤ t.start ↔ s.start.toNat ≤ t.start.toNat := UInt32.le_iff_toNat_le
      have hstop : s.stop = s.start.toNat + s.count.toNat := rfl
      rw [List.isChain_cons_cons, ← ih]
      simp only [sorted, startsAscend, overlap, Bool.and_eq_true, Bool.not_eq_true',
        Bool.or_eq_false_iff, decide_eq_true_eq, decide_eq_false_iff_not, hle]
      -- a block that ends before the next one starts does not start after it
      constructor
      · rintro ⟨⟨-, hascend⟩, hapart, hrest⟩
        exact ⟨by omega, hascend, hrest⟩
      · rintro ⟨hapart, hascend, hrest⟩
        exact ⟨⟨by omega, hascend⟩, by omega, hrest⟩

end TryBlock

namespace CodeItem

/-! ## Layouts -/

/-- The bytes are a form of a 32-bit number. -/
def NumberWritten (v : UInt32) (bytes : List UInt8) : Prop :=
  Uleb128 v.toNat bytes ∧ bytes.length ≤ 5

/-- The bytes are a form of a signed number. -/
def SizeWritten (n : ℤ) (bytes : List UInt8) : Prop := Sleb128 n bytes ∧ bytes.length ≤ 5

/-- A typed handler: the numbers of its type and of its address. -/
def HandlerWritten (h : CatchHandler) (bytes : List UInt8) : Prop :=
  ∃ typeIdx addr, NumberWritten h.typeIdx typeIdx ∧ NumberWritten h.addr addr ∧
    bytes = typeIdx ++ addr

/-- A handler list that is to be written: its typed handlers, and the address that takes every
other exception, if there is one. -/
structure HandlerList where
  typed : List CatchHandler
  catchAll : Option UInt32

/-- The entries of a list. The one that takes every exception is the last. -/
def HandlerList.handlers (l : HandlerList) : List CatchHandler :=
  l.typed ++ l.catchAll.toList.map fun addr => ⟨CatchHandler.noIndex, addr⟩

/-- A handler list starts with the number of its typed handlers, which is negated or zero if an
address for all other exceptions comes last. -/
inductive HandlerList.Written (l : HandlerList) : List UInt8 → Prop where
  | typed {size : List UInt8} {pairs : List (List UInt8)} (hall : l.catchAll = none)
      (hsize : SizeWritten l.typed.length size)
      (hpairs : List.Forall₂ HandlerWritten l.typed pairs) :
      Written l (size ++ pairs.flatten)
  | catchAll {size final : List UInt8} {pairs : List (List UInt8)} {addr : UInt32}
      (hall : l.catchAll = some addr) (hsize : SizeWritten (-l.typed.length) size)
      (hpairs : List.Forall₂ HandlerWritten l.typed pairs) (hfinal : NumberWritten addr final) :
      Written l (size ++ (pairs.flatten ++ final))

/-- The shortest form of a handler list. -/
def HandlerList.encode (l : HandlerList) : List UInt8 :=
  let pairs := l.typed.map fun h => ulebOf 4 h.typeIdx.toNat ++ ulebOf 4 h.addr.toNat
  match l.catchAll with
  | none => slebOf 4 l.typed.length ++ pairs.flatten
  | some addr => slebOf 4 (-l.typed.length) ++ (pairs.flatten ++ ulebOf 4 addr.toNat)

/-- A try item that is to be written: its range, and which of the handler lists it refers to. -/
structure TryItem where
  start : UInt32
  count : UInt16
  list : ℕ

/-- A try item names its handler list by an offset of sixteen bits. -/
def TryItem.Written (offset : ℕ → ℕ) (t : TryItem) (bytes : List UInt8) : Prop :=
  ∃ off : UInt16, off.toNat = offset t.list ∧
    bytes = ofUInt32 t.start ++ (ofUInt16 t.count ++ ofUInt16 off)

/-- The bytes of a try item. -/
def TryItem.encode (offset : ℕ → ℕ) (t : TryItem) : List UInt8 :=
  ofUInt32 t.start ++ (ofUInt16 t.count ++ ofUInt16 (offset t.list).toUInt16)

/-- A method body that is to be written. -/
structure Body where
  registers : UInt16
  ins : UInt16
  outs : UInt16
  debugInfo : UInt32
  units : List UInt16
  tries : List TryItem
  lists : List HandlerList

namespace Body

/-- The numbers of the body fit into their fields, its try items are in order, and every handler
list is what its size says. -/
structure Legal (b : Body) : Prop where
  units : b.units.length < 2 ^ 32
  tries : b.tries.length ≤ 65535
  lists : b.lists.length < 2 ^ 32
  /-- There are no lists without try items. -/
  noLists : b.tries = [] → b.lists = []
  /-- A try item ends before the next one starts. -/
  apart : b.tries.IsChain fun s t => s.start.toNat + s.count.toNat ≤ t.start.toNat
  /-- A try item refers to one of the lists. -/
  refers : ∀ t ∈ b.tries, t.list < b.lists.length
  typed : ∀ l ∈ b.lists, l.typed.length ≤ 65536
  /-- A list has an entry. -/
  entry : ∀ l ∈ b.lists, l.handlers ≠ []

/-- The words in front of the code units. -/
def header (b : Body) : List UInt8 :=
  ofUInt16 b.registers ++ (ofUInt16 b.ins ++ (ofUInt16 b.outs ++
    (ofUInt16 b.tries.length.toUInt16 ++ (ofUInt32 b.debugInfo ++
      ofUInt32 b.units.length.toUInt32))))

/-- The offset in the handler area at which the list with the given index stands, behind the number
of lists and the lists in front of it. -/
def listOffset (count : List UInt8) (chunks : List (List UInt8)) (index : ℕ) : ℕ :=
  count.length + (chunks.take index).flatten.length

/-- The layouts of a body. -/
inductive Written (b : Body) : List UInt8 → Prop where
  /-- Without try items nothing follows the code units. -/
  | plain (htries : b.tries = []) : Written b (b.header ++ ofUnits b.units)
  /-- Else there are the padding, the try items, the number of lists and the lists. -/
  | guarded {padding count : List UInt8} {items chunks : List (List UInt8)} (htries : b.tries ≠ [])
      (hpadding : padding.length = if b.units.length % 2 = 1 then 2 else 0)
      (hitems : List.Forall₂ (TryItem.Written (listOffset count chunks)) b.tries items)
      (hcount : NumberWritten b.lists.length.toUInt32 count)
      (hlists : List.Forall₂ HandlerList.Written b.lists chunks) :
      Written b (b.header ++ (ofUnits b.units ++
        (padding ++ (items.flatten ++ (count ++ chunks.flatten)))))

/-- The layout with the shortest forms and an empty padding. -/
def encode (b : Body) : List UInt8 :=
  let count := ulebOf 4 b.lists.length
  let chunks := b.lists.map HandlerList.encode
  b.header ++ (ofUnits b.units ++
    if b.tries = [] then []
    else (if b.units.length % 2 = 1 then [0, 0] else []) ++
      (b.tries.flatMap (TryItem.encode (listOffset count chunks)) ++ (count ++ chunks.flatten)))

/-- The handlers of the list with the given index. -/
def handlersOf (b : Body) (index : ℕ) : List CatchHandler :=
  (b.lists[index]?.map HandlerList.handlers).getD []

/-- The code item that a layout of `size` bytes stands for. -/
def item (b : Body) (size : ℕ) : CodeItem where
  registers := b.registers
  ins := b.ins
  outs := b.outs
  debugInfo := b.debugInfo
  code := b.units.toArray
  tries := b.tries.map fun t => ⟨t.start, t.count, b.handlersOf t.list⟩
  handlerLists := b.lists.map HandlerList.handlers
  size := size

end Body

/-! ## Shortest forms -/

/-- The groups of an unsigned word are a way to write it. -/
theorem numberWritten_ulebOf (v : UInt32) : NumberWritten v (ulebOf 4 v.toNat) := by
  have hv : v.toNat < 2 ^ 32 := v.toNat_lt
  exact ⟨uleb128_ulebOf (by omega), length_ulebOf_le 4 _⟩

/-- The groups of a size are a way to write it. -/
theorem sizeWritten_slebOf {n : ℤ} (hlow : -65536 ≤ n) (hhigh : n ≤ 65536) :
    SizeWritten n (slebOf 4 n) :=
  ⟨sleb128_slebOf (by omega) (by omega), length_slebOf_le 4 _⟩

/-- The encoding of a list is a way to write it. -/
theorem HandlerList.written_encode {l : HandlerList} (h : l.typed.length ≤ 65536) :
    l.Written l.encode := by
  have hpairs : List.Forall₂ HandlerWritten l.typed
      (l.typed.map fun h => ulebOf 4 h.typeIdx.toNat ++ ulebOf 4 h.addr.toNat) := by
    rw [List.forall₂_map_right_iff, List.forall₂_same]
    intro h _
    exact ⟨_, _, numberWritten_ulebOf h.typeIdx, numberWritten_ulebOf h.addr, rfl⟩
  unfold HandlerList.encode
  dsimp only
  split
  · rename_i hall
    exact .typed hall (sizeWritten_slebOf (by omega) (by omega)) hpairs
  · rename_i addr hall
    exact .catchAll hall (sizeWritten_slebOf (by omega) (by omega)) hpairs (numberWritten_ulebOf addr)

/-- A body has a layout if its lists stand at offsets of sixteen bits. -/
theorem Body.written_encode {b : Body} (hb : b.Legal)
    (hoffset : ∀ t ∈ b.tries,
      listOffset (ulebOf 4 b.lists.length) (b.lists.map HandlerList.encode) t.list ≤ 65535) :
    b.Written b.encode := by
  have hcount : b.lists.length.toUInt32.toNat = b.lists.length := by
    rw [Nat.toUInt32, UInt32.toNat_ofNat_of_lt' hb.lists]
  have hnumber := numberWritten_ulebOf b.lists.length.toUInt32
  rw [hcount] at hnumber
  have hlists : List.Forall₂ HandlerList.Written b.lists (b.lists.map HandlerList.encode) := by
    rw [List.forall₂_map_right_iff, List.forall₂_same]
    exact fun l hl => HandlerList.written_encode (hb.typed l hl)
  have hitems : List.Forall₂ (TryItem.Written
      (listOffset (ulebOf 4 b.lists.length) (b.lists.map HandlerList.encode))) b.tries
      (b.tries.map (TryItem.encode
        (listOffset (ulebOf 4 b.lists.length) (b.lists.map HandlerList.encode)))) := by
    rw [List.forall₂_map_right_iff, List.forall₂_same]
    intro t ht
    exact ⟨_, UInt16.toNat_ofNat_of_lt' (Nat.lt_succ_of_le (hoffset t ht)), rfl⟩
  unfold encode
  dsimp only
  split_ifs with htries hodd
  · rw [List.append_nil]
    exact .plain htries
  · exact .guarded htries (by rw [if_pos hodd]; rfl) hitems hnumber hlists
  · exact .guarded htries (by rw [if_neg hodd]; rfl) hitems hnumber hlists

/-! ## Reading what is written -/

open Reader

/-- A written number is read back. -/
theorem reads_number {v : UInt32} {bytes : List UInt8} (h : NumberWritten v bytes) (pos : ℕ) :
    Reads uleb128 pos bytes v := reads_uleb128 h.1 h.2 pos

/-- A written handler is read back. -/
theorem reads_handler {h : CatchHandler} {bytes : List UInt8} (hw : HandlerWritten h bytes)
    (i pos : ℕ) : Reads (readHandler i) pos bytes h := by
  obtain ⟨typeIdx, addr, htype, haddr, rfl⟩ := hw
  exact (reads_number htype pos).bind ((reads_number haddr _).bind_nil (Reads.pure _))

/-- The typed handlers of a list are read one by one. -/
theorem reads_handlers {typed : List CatchHandler} {pairs : List (List UInt8)}
    (h : List.Forall₂ HandlerWritten typed pairs) (pos : ℕ) :
    Reads (collect readHandler 0 typed.length #[]) pos pairs.flatten typed.toArray := by
  have heach : List.Forall₂ (fun bytes a => ∀ i pos, Reads (readHandler i) pos bytes a) pairs typed :=
    h.flip.imp fun bytes a hw i pos => reads_handler hw i pos
  have hread := (ReadsEach.of_forall₂ heach 0 pos).collect #[]
  rwa [Array.empty_append] at hread

/-- A written list that is not empty is read back with all its entries. -/
theorem reads_handlerList {l : HandlerList} {bytes : List UInt8} (hw : l.Written bytes)
    (htyped : l.typed.length ≤ 65536) (hentry : l.handlers ≠ []) (index pos : ℕ) :
    Reads (readHandlerList index) pos bytes l.handlers := by
  have hmax : ¬ maxHandlers < l.typed.length := by
    rw [maxHandlers]
    omega
  unfold HandlerList.handlers at hentry ⊢
  cases hw with
  | @typed size pairs hall hsize hpairs =>
    rw [hall] at hentry ⊢
    have hpos : 0 < l.typed.length := List.length_pos_of_ne_nil (by simpa using hentry)
    have hread := (reads_sleb128 hsize.1 hsize.2 (by omega) (by omega) pos).mapFault
      (Fault.read (.handlerList index))
    refine hread.bind ?_
    rw [if_neg (by simpa using hmax)]
    refine ((reads_handlers hpairs _).mapFault _).bind_nil ?_
    rw [if_neg (by omega)]
    simpa using Reads.pure l.typed
  | @catchAll size final pairs addr hall hsize hpairs hfinal =>
    rw [hall]
    have hread := (reads_sleb128 hsize.1 hsize.2 (by omega) (by omega) pos).mapFault
      (Fault.read (.handlerList index))
    have habs : (-(l.typed.length : ℤ)).natAbs = l.typed.length := by omega
    refine hread.bind ?_
    rw [habs, if_neg hmax]
    refine ((reads_handlers hpairs _).mapFault _).bind ?_
    rw [if_pos (by omega)]
    refine ((reads_number hfinal _).mapFault _).bind_nil ?_
    simpa using Reads.pure (l.typed ++ [⟨CatchHandler.noIndex, addr⟩])

/-- A written try item is read back with the offset of its list. -/
theorem reads_tryItem {offset : ℕ → ℕ} {t : TryItem} {bytes : List UInt8}
    (hw : t.Written offset bytes) :
    ∃ off : UInt16, off.toNat = offset t.list ∧
      ∀ i pos, Reads (readTryItem i) pos bytes (t.start, t.count, off) := by
  obtain ⟨off, hoff, rfl⟩ := hw
  refine ⟨off, hoff, fun i pos => Reads.mapFault ?_ _⟩
  exact (reads_u4 t.start pos).bind ((reads_u2 t.count _).bind
    ((reads_u2 off _).bind_nil (Reads.pure _)))

/-! ### Handler lists and their offsets -/

/-- The offsets of chunks that stand one behind the other, the first one at `off`. -/
def offsets (off : ℕ) : List (List UInt8) → List ℕ
  | [] => []
  | chunk :: chunks => off :: offsets (off + chunk.length) chunks

theorem length_offsets (off : ℕ) (chunks : List (List UInt8)) :
    (offsets off chunks).length = chunks.length := by
  induction chunks generalizing off with
  | nil => rfl
  | cons chunk chunks ih => rw [offsets, List.length_cons, ih, List.length_cons]

/-- No two chunks stand at the same offset, so what belongs to a chunk is found by its offset. -/
theorem lookup_offsets {α : Type} {chunks : List (List UInt8)} (hchunks : ∀ c ∈ chunks, 0 < c.length)
    {values : List α} (hlen : chunks.length = values.length) (off : ℕ) {j : ℕ}
    (hj : j < chunks.length) :
    ((offsets off chunks).zip values).lookup (off + (chunks.take j).flatten.length) = values[j]? := by
  induction chunks generalizing off values j with
  | nil => simp at hj
  | cons chunk chunks ih =>
    obtain ⟨value, values, rfl⟩ : ∃ value rest, values = value :: rest :=
      List.exists_cons_of_length_pos (by rw [← hlen]; exact Nat.zero_lt_succ _)
    rw [offsets, List.zip_cons_cons]
    cases j with
    | zero =>
      have hhere : off + (([] : List (List UInt8)).flatten).length = off := rfl
      rw [List.take_zero, hhere, List.lookup_cons_self, List.getElem?_cons_zero]
    | succ j =>
      have hpos : 0 < chunk.length := hchunks chunk List.mem_cons_self
      have hnext : off + ((chunk :: chunks).take (j + 1)).flatten.length
          = off + chunk.length + (chunks.take j).flatten.length := by
        rw [List.take_succ_cons, List.flatten_cons, List.length_append, Nat.add_assoc]
      have hne : (off + chunk.length + (chunks.take j).flatten.length == off) = false := by
        rw [beq_eq_false_iff_ne]
        omega
      rw [hnext, List.lookup_cons, hne, List.getElem?_cons_succ]
      exact ih (fun c hc => hchunks c (List.mem_cons_of_mem _ hc)) (by simpa using hlen) _
        (by simpa using hj)

/-- A written list takes a byte at least. -/
theorem HandlerList.Written.length_pos {l : HandlerList} {bytes : List UInt8} (h : l.Written bytes) :
    0 < bytes.length := by
  cases h with
  | typed _ hsize _ =>
    rw [List.length_append]
    exact Nat.add_pos_left hsize.1.length_pos _
  | catchAll _ hsize _ _ =>
    rw [List.length_append]
    exact Nat.add_pos_left hsize.1.length_pos _

/-- No chunk of written lists is empty. -/
theorem chunk_length_pos {lists : List HandlerList} {chunks : List (List UInt8)}
    (h : List.Forall₂ HandlerList.Written lists chunks) : ∀ c ∈ chunks, 0 < c.length := by
  induction h with
  | nil => simp
  | cons hfirst _ ih => exact List.forall_mem_cons.mpr ⟨hfirst.length_pos, ih⟩

/-- The lists are read one by one, each with the offset at which it stands. -/
theorem reads_lists {lists : List HandlerList} {chunks : List (List UInt8)}
    (hw : List.Forall₂ HandlerList.Written lists chunks)
    (htyped : ∀ l ∈ lists, l.typed.length ≤ 65536) (hentry : ∀ l ∈ lists, l.handlers ≠ [])
    (areaStart i off : ℕ) :
    ReadsEach (readListAt areaStart) i (areaStart + off) chunks
      ((offsets off chunks).zip (lists.map HandlerList.handlers)) := by
  induction hw generalizing i off with
  | nil => exact .nil i _
  | @cons l chunk lists chunks hl _ ih =>
    have hread := reads_handlerList hl (htyped l List.mem_cons_self) (hentry l List.mem_cons_self)
      i (areaStart + off)
    refine .cons ?_ ?_
    · refine Reads.get_bind fun c hc => ?_
      rw [hc, Nat.add_sub_cancel_left]
      exact hread.bind_nil (Reads.pure _)
    · rw [Nat.add_assoc]
      exact ih (fun l hl => htyped l (List.mem_cons_of_mem _ hl))
        (fun l hl => hentry l (List.mem_cons_of_mem _ hl)) _ _

/-! ### Try items -/

/-- What is read for a try item. -/
def TryItem.Matches (offset : ℕ → ℕ) (t : TryItem) (v : UInt32 × UInt16 × UInt16) : Prop :=
  v.1 = t.start ∧ v.2.1 = t.count ∧ v.2.2.toNat = offset t.list

/-- Written try items are read back, each with the offset of its list. -/
theorem reads_tryItems {offset : ℕ → ℕ} {tries : List TryItem} {items : List (List UInt8)}
    (hw : List.Forall₂ (TryItem.Written offset) tries items) :
    ∃ values, List.Forall₂ (TryItem.Matches offset) tries values ∧
      ∀ pos, Reads (collect readTryItem 0 tries.length #[]) pos items.flatten values.toArray := by
  have hvalues : ∃ values, List.Forall₂ (TryItem.Matches offset) tries values ∧
      List.Forall₂ (fun bytes a => ∀ i pos, Reads (readTryItem i) pos bytes a) items values := by
    induction hw with
    | nil => exact ⟨[], .nil, .nil⟩
    | cons hfirst _ ih =>
      obtain ⟨off, hoff, hread⟩ := reads_tryItem hfirst
      obtain ⟨values, hmatch, hreads⟩ := ih
      exact ⟨_ :: values, .cons ⟨rfl, rfl, hoff⟩ hmatch, .cons hread hreads⟩
  obtain ⟨values, hmatch, hreads⟩ := hvalues
  refine ⟨values, hmatch, fun pos => ?_⟩
  have hread := (ReadsEach.of_forall₂ hreads 0 pos).collect #[]
  rwa [Array.empty_append, ← hmatch.length_eq] at hread

/-- Every try item gets the list that stands at its offset. -/
theorem resolveTries_eq {offset : ℕ → ℕ} {handlersOf : ℕ → List CatchHandler}
    {placed : List (ℕ × List CatchHandler)} {tries : List TryItem}
    {values : List (UInt32 × UInt16 × UInt16)}
    (hmatch : List.Forall₂ (TryItem.Matches offset) tries values)
    (hplaced : ∀ t ∈ tries, placed.lookup (offset t.list) = some (handlersOf t.list)) (i : ℕ)
    (acc : Array TryBlock) :
    resolveTries placed i values acc
      = .ok (acc.toList ++ tries.map fun t => ⟨t.start, t.count, handlersOf t.list⟩) := by
  induction hmatch generalizing i acc with
  | nil => rw [resolveTries, List.map_nil, List.append_nil]
  | @cons t v tries values hfirst _ ih =>
    obtain ⟨start, count, off⟩ := v
    obtain ⟨rfl, rfl, hoff⟩ := hfirst
    have hfound := hplaced t List.mem_cons_self
    rw [← hoff] at hfound
    rw [resolveTries, hfound]
    dsimp only
    rw [ih fun t ht => hplaced t (List.mem_cons_of_mem _ ht)]
    simp

/-! ### The whole item -/

/-- The try items and handler lists behind the padding. -/
def readTable (tryCount : ℕ) : Reader Fault (List TryBlock × List (List CatchHandler)) := do
  let items ← collect readTryItem 0 tryCount #[]
  let areaStart := (← get).pos
  let listCount ← located .listCount uleb128
  let lists ← collect (readListAt areaStart) 0 listCount.toNat #[]
  let tries ← resolveTries lists.toList 0 items.toList #[]
  if TryBlock.sorted tries then
    return (tries, lists.toList.map (·.2))
  else
    throw .triesOrder

theorem readTries_eq (units tryCount : ℕ) :
    readTries units tryCount
      = if units % 2 ≠ 0 then located .padding u2 >>= fun _ => readTable tryCount
        else readTable tryCount := rfl

/-- The tries of a legal body are sorted. -/
theorem Body.Legal.sorted {b : Body} (hb : b.Legal) (size : ℕ) :
    TryBlock.sorted (b.item size).tries = true := by
  rw [TryBlock.sorted_iff_isChain]
  exact (List.isChain_map _).mpr hb.apart

/-- A written table is read back as the tries and the handler lists of the item. -/
theorem reads_table {b : Body} (hb : b.Legal) {count : List UInt8} {items chunks : List (List UInt8)}
    (hitems : List.Forall₂ (TryItem.Written (Body.listOffset count chunks)) b.tries items)
    (hcount : NumberWritten b.lists.length.toUInt32 count)
    (hlists : List.Forall₂ HandlerList.Written b.lists chunks) (size pos : ℕ) :
    Reads (readTable b.tries.length) pos (items.flatten ++ (count ++ chunks.flatten))
      ((b.item size).tries, (b.item size).handlerLists) := by
  obtain ⟨values, hmatch, hreads⟩ := reads_tryItems hitems
  have hchunks := chunk_length_pos hlists
  have hlen : chunks.length = (b.lists.map HandlerList.handlers).length := by
    rw [List.length_map, hlists.length_eq]
  -- the list that a try item refers to is found at its offset
  have hplaced : ∀ t ∈ b.tries, ((offsets count.length chunks).zip
      (b.lists.map HandlerList.handlers)).lookup (Body.listOffset count chunks t.list)
        = some (b.handlersOf t.list) := by
    intro t ht
    have hrefers := hb.refers t ht
    have hlookup := lookup_offsets hchunks hlen count.length (j := t.list)
      (by rw [← hlists.length_eq]; exact hrefers)
    rw [Body.listOffset, hlookup, Body.handlersOf, List.getElem?_map,
      List.getElem?_eq_getElem hrefers]
    rfl
  refine (hreads pos).bind (Reads.get_bind fun c hc => ?_)
  refine ((reads_number hcount _).mapFault _).bind ?_
  have hcountValue : b.lists.length.toUInt32.toNat = b.lists.length := by
    rw [Nat.toUInt32, UInt32.toNat_ofNat_of_lt' hb.lists]
  have hzip : b.lists.length = ((offsets count.length chunks).zip
      (b.lists.map HandlerList.handlers)).length := by
    rw [List.length_zip, length_offsets, hlen, List.length_map, min_self]
  have hcollect := (reads_lists hlists hb.typed hb.entry (pos + items.flatten.length) 0
    count.length).collect #[]
  rw [← hzip, Array.empty_append] at hcollect
  rw [hc, hcountValue]
  refine hcollect.bind_nil ?_
  refine (Reads.lift (resolveTries_eq hmatch hplaced 0 #[])).bind ?_
  have hhandlers : ((offsets count.length chunks).zip
      (b.lists.map HandlerList.handlers)).toArray.toList.map (·.2) = (b.item size).handlerLists :=
    List.map_snd_zip (by rw [length_offsets, hlen])
  rw [hhandlers]
  show Reads (if TryBlock.sorted (b.item size).tries = true
    then pure ((b.item size).tries, (b.item size).handlerLists) else throw Fault.triesOrder) _ [] _
  rw [if_pos (hb.sorted size)]
  exact Reads.pure _

theorem reads_padding {padding : List UInt8} (hpadding : padding.length = 2) (pos : ℕ) :
    ∃ v, Reads u2 pos padding v := by
  obtain ⟨x, y, rfl⟩ := List.length_eq_two.mp hpadding
  exact ⟨toUInt16 x y, fun _ => rfl⟩

/-- The padding is skipped, whatever it is. -/
theorem reads_tries {b : Body} (hb : b.Legal) {padding count : List UInt8}
    {items chunks : List (List UInt8)}
    (hpadding : padding.length = if b.units.length % 2 = 1 then 2 else 0)
    (hitems : List.Forall₂ (TryItem.Written (Body.listOffset count chunks)) b.tries items)
    (hcount : NumberWritten b.lists.length.toUInt32 count)
    (hlists : List.Forall₂ HandlerList.Written b.lists chunks) (size pos : ℕ) :
    Reads (readTries b.units.length b.tries.length) pos
      (padding ++ (items.flatten ++ (count ++ chunks.flatten)))
      ((b.item size).tries, (b.item size).handlerLists) := by
  have htable := reads_table hb hitems hcount hlists size
  rw [readTries_eq]
  split_ifs at hpadding with hodd
  · obtain ⟨v, hv⟩ := reads_padding hpadding pos
    rw [if_pos (by omega)]
    exact (hv.mapFault _).bind (htable _)
  · rw [List.eq_nil_of_length_eq_zero hpadding, if_neg (by omega), List.nil_append]
    exact htable pos

/-- The header and the units are read, and what follows them is left to the rest. -/
theorem reads_read {b : Body} (hb : b.Legal) {tail : List UInt8} {size : ℕ}
    (hsize : size = (b.header ++ (ofUnits b.units ++ tail)).length) (hnone : b.tries = [] → tail = [])
    (htries : b.tries ≠ [] → ∀ pos, Reads (readTries b.units.length b.tries.length) pos tail
      ((b.item size).tries, (b.item size).handlerLists)) :
    Reads read 0 (b.header ++ (ofUnits b.units ++ tail)) (b.item size) := by
  have hunits : b.units.length.toUInt32.toNat = b.units.length := by
    rw [Nat.toUInt32, UInt32.toNat_ofNat_of_lt' hb.units]
  have hcount : b.tries.length.toUInt16.toNat = b.tries.length := by
    rw [Nat.toUInt16, UInt16.toNat_ofNat_of_lt' (Nat.lt_succ_of_le hb.tries)]
  rw [Body.header] at hsize ⊢
  simp only [List.append_assoc] at hsize ⊢
  refine ((reads_u2 b.registers _).mapFault _).bind ?_
  refine ((reads_u2 b.ins _).mapFault _).bind ?_
  refine ((reads_u2 b.outs _).mapFault _).bind ?_
  refine ((reads_u2 b.tries.length.toUInt16 _).mapFault _).bind ?_
  refine ((reads_u4 b.debugInfo _).mapFault _).bind ?_
  refine ((reads_u4 b.units.length.toUInt32 _).mapFault _).bind ?_
  rw [hunits]
  refine Reads.need_bind ?_ ?_
  · rw [List.length_append, length_ofUnits]
    omega
  refine ((reads_units b.units _).mapFault _).bind ?_
  -- in the end the position is the number of bytes
  simp only [List.length_append] at hsize
  dsimp only
  by_cases hempty : b.tries = []
  · have hnothing : (([], []) : List TryBlock × List (List CatchHandler))
        = ((b.item size).tries, (b.item size).handlerLists) := by
      simp [Body.item, hempty, hb.noLists hempty]
    rw [if_pos (by simp [hempty]), hnothing, hnone hempty]
    refine (Reads.pure _).bind_nil (Reads.get_bind fun c hc => ?_)
    have hend : c.pos = size := by
      rw [hc, hsize, hnone hempty]
      omega
    rw [hend]
    exact Reads.pure _
  · have hsome : b.tries.length.toUInt16 ≠ 0 := by
      rw [Ne, ← UInt16.toNat_inj, hcount]
      exact fun hzero => hempty (List.eq_nil_of_length_eq_zero hzero)
    rw [if_neg hsome, hcount]
    refine (htries hempty _).bind_nil (Reads.get_bind fun c hc => ?_)
    have hend : c.pos = size := by
      rw [hc, hsize]
      omega
    rw [hend]
    exact Reads.pure _

/-- Parsing undoes every layout of a method body: it gives back the header, the code units, the try
blocks with the handlers of the lists that they refer to, and the handler lists in order. The size
is that of the layout, and the bytes behind it play no part. -/
theorem parse_of_written {b : Body} (hb : b.Legal) {bytes : List UInt8} (h : b.Written bytes)
    (rest : List UInt8) : parse (bytes ++ rest) = .ok (b.item bytes.length) := by
  have hreads : Reads read 0 bytes (b.item bytes.length) := by
    cases h with
    | plain htries =>
      have hread := @reads_read b hb [] _ rfl (fun _ => rfl) (fun hno => absurd htries hno)
      rwa [List.append_nil] at hread
    | guarded htries hpadding hitems hcount hlists =>
      refine reads_read hb rfl (fun hno => absurd hno htries) fun _ pos => ?_
      exact reads_tries hb hpadding hitems hcount hlists _ pos
  rw [parse, hreads rest]

/-- Three units, and two try items that refer to the second and to the first of two lists. -/
def guardedBody : Body where
  registers := 2
  ins := 1
  outs := 0
  debugInfo := 0x01020304
  units := [0, 0, 0x000e]
  tries := [⟨0, 1, 1⟩, ⟨1, 2, 0⟩]
  lists := [⟨[⟨300, 2⟩], none⟩, ⟨[⟨7, 1⟩, ⟨8, 0⟩], some 2⟩]

/-- The layout of this body with the shortest forms, and a byte behind it. -/
theorem parse_of_guardedBody :
    guardedBody.Legal ∧ guardedBody.Written guardedBody.encode ∧
      parse ([2, 0, 1, 0, 0, 0, 2, 0, 4, 3, 2, 1, 3, 0, 0, 0, 0, 0, 0, 0, 0x0e, 0, 0, 0,
          0, 0, 0, 0, 1, 0, 5, 0, 1, 0, 0, 0, 2, 0, 1, 0,
          2, 1, 0xac, 2, 2, 0x7e, 7, 1, 8, 0, 2] ++ [0xff])
        = .ok { registers := 2, ins := 1, outs := 0, debugInfo := 0x01020304
                code := #[0, 0, 0x000e]
                tries := [⟨0, 1, [⟨7, 1⟩, ⟨8, 0⟩, ⟨0xffffffff, 2⟩]⟩, ⟨1, 2, [⟨300, 2⟩]⟩]
                handlerLists := [[⟨300, 2⟩], [⟨7, 1⟩, ⟨8, 0⟩, ⟨0xffffffff, 2⟩]]
                size := 51 } := by
  have hlegal : guardedBody.Legal := by
    constructor <;> decide
  have hwritten : guardedBody.Written guardedBody.encode := Body.written_encode hlegal (by decide)
  exact ⟨hlegal, hwritten, parse_of_written hlegal hwritten [0xff]⟩

end CodeItem
end Dalvik
